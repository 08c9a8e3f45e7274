import Tarako.Camera.ExifLayout

/-!
# The writer follows its layout

As long as what the layout stores lies in the target buffer the writer stores just that.
Where it does not, the writer fails or goes on with a part of the segment where another one
is: an offset that has not moved on, or a position that could not be set, is where the next
part is written too. `Off` is a record position that is taken in this way, and `Clash` the
byte stored there for two parts.
-/

namespace Tarako

namespace Exif

open Prog

variable {E : Failure → Prop} {s t : Context} {d : Dir}

/-! ## The stream -/

def Context.seek (s : Context) (offset : ℕ) : Context := { s with pos := offset }

@[simp] theorem size_put (s : Context) (part : Part) (bytes : List UInt8) :
    (s.put part bytes).size = s.size := rfl

@[simp] theorem pos_put (s : Context) (part : Part) (bytes : List UInt8) :
    (s.put part bytes).pos = s.pos + bytes.length := rfl

@[simp] theorem stores_put (s : Context) (part : Part) (bytes : List UInt8) :
    (s.put part bytes).stores = s.stores ++ Store.block part s.pos bytes := rfl

@[simp] theorem size_seek (s : Context) (offset : ℕ) : (s.seek offset).size = s.size := rfl

@[simp] theorem pos_seek (s : Context) (offset : ℕ) : (s.seek offset).pos = offset := rfl

@[simp] theorem stores_seek (s : Context) (offset : ℕ) : (s.seek offset).stores = s.stores := rfl

theorem put_put (s : Context) (part : Part) (bytes bytes' : List UInt8) :
    (s.put part bytes).put part bytes' = s.put part (bytes ++ bytes') := by
  simp [Context.put, Store.block_append, Nat.add_assoc]

theorem wp_setWritePos {offset : ℕ} {Q : Bool → Context → Prop} :
    wp E (setWritePos offset) Q s ↔
      (s.size < offset → Q false s) ∧ (offset ≤ s.size → Q true (s.seek offset)) := by
  simp only [setWritePos, wp_bind, wp_get, wp_ite, wp_pure, wp_modify, Nat.not_lt]
  exact Iff.rfl

theorem wp_getWritePos {Q : ℕ → Context → Prop} : wp E getWritePos Q s ↔ Q s.pos s := Iff.rfl

theorem wp_fail {α : Type} {Q : α → Context → Prop} :
    wp E (fail : W α) Q s ↔ E ⟨.failed, s.stores⟩ := Iff.rfl

theorem wp_must {P : Prop} {write : W Bool} {Q : Unit → Context → Prop} :
    wp (fun _ => P) (must write) Q s ↔
      wp (fun _ => P) write (fun done t => (done = true → Q () t) ∧ (done = false → P)) s := by
  rw [must, wp_bind]
  refine wp_congr fun done t => ?_
  rw [wp_ite, wp_pure, wp_fail, Bool.not_eq_true]

/-- The buffer stays and the stores are added to. -/
structure Grows (s t : Context) : Prop where
  size : t.size = s.size
  stores : s.stores <+: t.stores

theorem Grows.refl (s : Context) : Grows s s := ⟨rfl, List.prefix_rfl⟩

theorem Grows.trans (s t u : Context) (h : Grows s t) (h' : Grows t u) : Grows s u :=
  ⟨h'.size.trans h.size, h.stores.trans h'.stores⟩

theorem grows_put (s : Context) (part : Part) (bytes : List UInt8) :
    Grows s (s.put part bytes) :=
  ⟨rfl, List.prefix_append _ _⟩

theorem grows_bind {α β : Type} {m : W α} {f : α → W β} (hm : Keeps Grows m)
    (hf : ∀ a, Keeps Grows (f a)) : Keeps Grows (m >>= f) :=
  keeps_bind Grows.trans hm hf

theorem grows_pure {α : Type} (a : α) : Keeps Grows (pure a : W α) := keeps_pure Grows.refl a

theorem grows_get : Keeps Grows (get : W Context) := keeps_get Grows.refl

theorem grows_setWritePos (offset : ℕ) : Keeps Grows (setWritePos offset) :=
  grows_bind grows_get fun _ => keeps_ite (grows_pure _)
    (grows_bind (keeps_modify fun _ => ⟨rfl, List.prefix_rfl⟩) fun _ => grows_pure _)

theorem grows_getWritePos : Keeps Grows getWritePos := grows_bind grows_get fun _ => grows_pure _

theorem grows_fail {α : Type} : Keeps Grows (fail : W α) :=
  grows_bind grows_get fun _ => keeps_throw _

theorem grows_must {write : W Bool} (h : Keeps Grows write) : Keeps Grows (must write) :=
  grows_bind h fun _ => keeps_ite (grows_pure _) grows_fail

/-- A write that stores these bytes, or fails because they do not fit. -/
def Puts (part : Part) (write : W Bool) (bytes : List UInt8) : Prop :=
  ∀ s, s.pos ≤ s.size → wp (fun _ => False) write
    (fun done t => (done = true ∧ s.pos + bytes.length ≤ s.size ∧ t = s.put part bytes) ∨
      (done = false ∧ s.size < s.pos + bytes.length)) s

theorem puts_writeC (part : Part) (c : UInt8) : Puts part (writeC part c) [c] := by
  intro s _
  rw [writeC, wp_bind, wp_get, wp_ite, wp_bind]
  exact ⟨fun hfull => .inr ⟨rfl, hfull⟩, fun hroom => .inl ⟨rfl, Nat.not_lt.mp hroom, rfl⟩⟩

theorem puts_writeL (part : Part) (l : ℕ) : Puts part (writeL part l) (be32 l) := by
  intro s _
  rw [writeL, wp_bind, wp_get, wp_ite, wp_bind]
  exact ⟨fun hfull => .inr ⟨rfl, hfull⟩, fun hroom => .inl ⟨rfl, Nat.not_lt.mp hroom, rfl⟩⟩

theorem puts_true (part : Part) : Puts part (pure true) [] :=
  fun s hpos => .inl ⟨rfl, hpos, by simp [Context.put]⟩

theorem puts_ite {part : Part} {write write' : W Bool} {bytes bytes' : List UInt8}
    (h : Puts part write bytes) (h' : Puts part write' bytes') :
    Puts part (do if ← write then write' else pure false) (bytes ++ bytes') := by
  intro s hpos
  rw [wp_bind]
  refine wp_mono (h s hpos) (fun _ he => he) fun done t ht => ?_
  rw [List.length_append]
  obtain ⟨rfl, hroom, rfl⟩ | ⟨rfl, hfull⟩ := ht
  · rw [if_pos rfl]
    refine wp_mono (h' _ hroom) (fun _ he => he) fun done t ht => ?_
    rw [pos_put, size_put, put_put] at ht
    obtain ⟨rfl, hroom', rfl⟩ | ⟨rfl, hfull'⟩ := ht
    · exact .inl ⟨rfl, by omega, rfl⟩
    · exact .inr ⟨rfl, by omega⟩
  · rw [if_neg (by decide), wp_pure]
    exact .inr ⟨rfl, by omega⟩

theorem puts_writeW (part : Part) (w : ℕ) : Puts part (writeW part w) (be16 w) :=
  puts_ite (puts_writeC part _) (puts_writeC part _)

theorem puts_writeEach {part : Part} {write : ℕ → W Bool} {bytes : ℕ → List UInt8}
    (h : ∀ i, Puts part (write i) (bytes i)) (n i : ℕ) :
    Puts part (writeEach write n i) ((List.range' i n).flatMap bytes) := by
  induction n generalizing i with
  | zero => exact puts_true part
  | succ n ih =>
      rw [List.range'_succ, List.flatMap_cons]
      exact puts_ite (h i) (ih (i + 1))

theorem puts_writeBlock (part : Part) (block : List UInt8) :
    Puts part (writeBlock part block) block := by
  have hblock : (List.range' 0 block.length).flatMap (fun i => [block.getD i 0]) = block := by
    rw [← List.range_eq_range', ← List.map_eq_flatMap]
    exact List.ext_getElem (by simp) fun i hi hi' => by simp [hi']
  have hputs := puts_writeEach (fun i => puts_writeC part (block.getD i 0)) block.length 0
  rwa [hblock] at hputs

/-- A write that the writer insists on. -/
def PutsAll (part : Part) (write : W Unit) (bytes : List UInt8) : Prop :=
  ∀ (P : Prop) (Q : Unit → Context → Prop) s, s.pos ≤ s.size → (wp (fun _ => P) write Q s ↔
    (s.pos + bytes.length ≤ s.size → Q () (s.put part bytes)) ∧
      (s.size < s.pos + bytes.length → P))

theorem Puts.must {part : Part} {write : W Bool} {bytes : List UInt8}
    (h : Puts part write bytes) : PutsAll part (must write) bytes := by
  intro P Q s hpos
  obtain ⟨done, t, hyields, ht⟩ := exists_yields_of_wp (h s hpos)
  rw [wp_must, wp_of_yields hyields]
  obtain ⟨rfl, hroom, rfl⟩ | ⟨rfl, hfull⟩ := ht
  · simp [hroom, Nat.not_lt.mpr hroom]
  · simp [hfull, Nat.not_le.mpr hfull]

theorem PutsAll.bind {part : Part} {write write' : W Unit} {bytes bytes' : List UInt8}
    (h : PutsAll part write bytes) (h' : PutsAll part write' bytes') :
    PutsAll part (do write; write') (bytes ++ bytes') := by
  intro P Q s hpos
  rw [wp_bind, h P _ s hpos, List.length_append, ← Nat.add_assoc]
  by_cases hroom : s.pos + bytes.length ≤ s.size
  · rw [h' P Q _ hroom, put_put, pos_put, size_put]
    simp [hroom, Nat.not_lt.mpr hroom]
  · have hfull : ¬ s.pos + bytes.length + bytes'.length ≤ s.size := by omega
    simp [hroom, hfull, Nat.not_le.mp hroom, Nat.not_le.mp hfull]

theorem putsAll_writeIFD (d : Dir) (ifd : IfdInfo) :
    PutsAll (.record d ifd.tag) (writeIFD d ifd) ifd.record := by
  have htag := (puts_writeW (.record d ifd.tag) ifd.tag.code).must
  have htype := (puts_writeW (.record d ifd.tag) ifd.type.code).must
  have hcount := (puts_writeL (.record d ifd.tag) ifd.count).must
  have hoffset := (puts_writeL (.record d ifd.tag) ifd.offsetValue).must
  rw [IfdInfo.record, List.append_assoc, List.append_assoc]
  exact htag.bind (htype.bind (hcount.bind hoffset))

@[simp] theorem length_record (ifd : IfdInfo) : ifd.record.length = 12 := rfl

/-! ## Growing -/

theorem grows_writeC (part : Part) (c : UInt8) : Keeps Grows (writeC part c) :=
  grows_bind grows_get fun _ => keeps_ite (grows_pure _)
    (grows_bind (keeps_modify fun s => grows_put s part [c]) fun _ => grows_pure _)

theorem grows_ite {write write' : W Bool} (h : Keeps Grows write) (h' : Keeps Grows write') :
    Keeps Grows (do if ← write then write' else pure false) :=
  grows_bind h fun _ => keeps_ite h' (grows_pure _)

theorem grows_writeW (part : Part) (w : ℕ) : Keeps Grows (writeW part w) :=
  grows_ite (grows_writeC part _) (grows_writeC part _)

theorem grows_writeL (part : Part) (l : ℕ) : Keeps Grows (writeL part l) :=
  grows_bind grows_get fun _ => keeps_ite (grows_pure _)
    (grows_bind (keeps_modify fun s => grows_put s part _) fun _ => grows_pure _)

theorem grows_writeEach {write : ℕ → W Bool} (h : ∀ i, Keeps Grows (write i)) (n i : ℕ) :
    Keeps Grows (writeEach write n i) := by
  induction n generalizing i with
  | zero => exact grows_pure true
  | succ n ih => exact grows_ite (h i) (ih (i + 1))

theorem grows_writeIFD (d : Dir) (ifd : IfdInfo) : Keeps Grows (writeIFD d ifd) :=
  grows_bind (grows_must (grows_writeW _ _)) fun _ =>
    grows_bind (grows_must (grows_writeW _ _)) fun _ =>
      grows_bind (grows_must (grows_writeL _ _)) fun _ => grows_must (grows_writeL _ _)

theorem grows_writeRecord (d : Dir) (ifd : IfdInfo) (outside : Bool) {write : ℕ → W Bool}
    (h : ∀ i, Keeps Grows (write i)) (strict : Bool) (o v : ℕ) :
    Keeps Grows (writeRecord d ifd outside write strict o v) :=
  grows_bind (grows_must (grows_setWritePos o)) fun _ =>
    grows_bind (grows_writeIFD d ifd) fun _ => grows_bind grows_getWritePos fun _ =>
      keeps_ite
        (grows_bind (grows_must (grows_setWritePos v)) fun _ =>
          grows_bind (grows_writeEach h _ _) fun _ => keeps_ite
            (grows_bind grows_getWritePos fun _ => grows_pure _)
            (keeps_ite grows_fail (grows_pure _)))
        (grows_pure _)

/-! ## Records -/

/-- The outcomes of a writer: it stores the record, and the elements where they do not fit
into it; or the elements do not fit into the buffer, and if it does not fail it gives the
position of the record that it has stored. -/
theorem wp_writeRecord (ifd : IfdInfo) (outside strict : Bool) {write : ℕ → W Bool}
    {bytes : List UInt8} (h : Puts (.value d ifd.tag) (writeEach write ifd.count 0) bytes)
    (hgrows : ∀ i, Keeps Grows (write i)) (o v : ℕ) (s : Context) :
    wp (fun _ => s.size < o + 12 ∨ (outside = true ∧ s.size < v + bytes.length))
      (writeRecord d ifd outside write strict o v)
      (fun p t => o + 12 ≤ s.size ∧
        ((outside = false ∧ p = (o + 12, v) ∧
            t = (s.seek o).put (.record d ifd.tag) ifd.record) ∨
          (outside = true ∧ v + bytes.length ≤ s.size ∧
            p = (o + 12, align4 (v + bytes.length)) ∧
            t = (((s.seek o).put (.record d ifd.tag) ifd.record).seek v).put
              (.value d ifd.tag) bytes) ∨
          (outside = true ∧ s.size < v + bytes.length ∧ strict = false ∧ v ≤ s.size ∧ p.1 = o ∧
            Grows ((s.seek o).put (.record d ifd.tag) ifd.record) t))) s := by
  rw [writeRecord, wp_bind, wp_must, wp_setWritePos]
  refine ⟨fun hfull => ⟨nofun, fun _ => .inl (by omega)⟩, fun ho => ⟨fun _ => ?_, nofun⟩⟩
  rw [wp_bind, putsAll_writeIFD d ifd _ _ (s.seek o) ho]
  refine ⟨fun hroom => ?_, fun hfull => .inl hfull⟩
  rw [length_record, pos_seek, size_seek] at hroom
  rw [wp_bind, wp_getWritePos, wp_ite]
  refine ⟨fun hout => ?_, fun hin => ⟨hroom, .inl ⟨Bool.not_eq_true _ ▸ hin, rfl, rfl⟩⟩⟩
  rw [wp_bind, wp_must, wp_setWritePos]
  refine ⟨fun hfull => ⟨nofun, fun _ => .inr ⟨hout, Nat.lt_add_right _ hfull⟩⟩,
    fun hv => ⟨fun _ => ?_, nofun⟩⟩
  rw [wp_bind]
  have heach := wp_and (h _ hv)
    (keeps_iff_wp.mp (grows_writeEach hgrows ifd.count 0)
      (((s.seek o).put (.record d ifd.tag) ifd.record).seek v))
  refine wp_mono heach (fun _ he => he.1.elim) fun done t ht => ?_
  obtain ⟨⟨rfl, hfit, rfl⟩ | ⟨rfl, hfull⟩, hgrow⟩ := ht
  · rw [if_pos rfl, wp_bind, wp_getWritePos, wp_pure]
    exact ⟨hroom, .inr (.inl ⟨hout, hfit, rfl, rfl⟩)⟩
  · rw [if_neg (by decide), wp_ite, wp_fail, wp_pure]
    refine ⟨fun _ => .inr ⟨hout, hfull⟩, fun hlax => ⟨hroom, .inr (.inr ?_)⟩⟩
    exact ⟨hout, hfull, Bool.eq_false_iff.mpr hlax, hv, rfl, hgrow.size, hgrow.stores⟩

namespace Writer

/-- How a writer writes the element `i`. -/
def put : Writer → Dir → IfdInfo → ℕ → W Bool
  | .rational, d, ifd, i => do
      if ← writeL (.value d ifd.tag) (ifd.valuePtr.load32 (2 * i)).toNat then
        writeL (.value d ifd.tag) (ifd.valuePtr.load32 (2 * i + 1)).toNat
      else pure false
  | .long, d, ifd, i => writeL (.value d ifd.tag) (ifd.valuePtr.load32 i).toNat
  | .short, d, ifd, i => writeW (.value d ifd.tag) (load16 ifd.valuePtr i).toNat
  | .byte, d, ifd, i => writeC (.value d ifd.tag) (ifd.valuePtr i)

theorem write_eq (w : Writer) (d : Dir) (ifd : IfdInfo) : w.write d ifd =
    writeRecord d (w.prepare ifd) (w.outside ifd.count) (w.put d ifd) w.strict := by
  cases w <;> rfl

@[simp] theorem tag_prepare (w : Writer) (ifd : IfdInfo) : (w.prepare ifd).tag = ifd.tag := by
  cases w <;> simp only [prepare] <;> split <;> rfl

@[simp] theorem count_prepare (w : Writer) (ifd : IfdInfo) :
    (w.prepare ifd).count = ifd.count := by
  cases w <;> simp only [prepare] <;> split <;> rfl

theorem puts_put (w : Writer) (d : Dir) (ifd : IfdInfo) (i : ℕ) :
    Puts (.value d ifd.tag) (w.put d ifd i) (w.element ifd.valuePtr i) := by
  cases w with
  | rational => exact puts_ite (puts_writeL _ _) (puts_writeL _ _)
  | long => exact puts_writeL _ _
  | short => exact puts_writeW _ _
  | byte => exact puts_writeC _ _

theorem grows_put (w : Writer) (d : Dir) (ifd : IfdInfo) (i : ℕ) :
    Keeps Grows (w.put d ifd i) := by
  cases w with
  | rational => exact grows_ite (grows_writeL _ _) (grows_writeL _ _)
  | long => exact grows_writeL _ _
  | short => exact grows_writeW _ _
  | byte => exact grows_writeC _ _

theorem grows_write (w : Writer) (d : Dir) (ifd : IfdInfo) (o v : ℕ) :
    Keeps Grows (w.write d ifd o v) := by
  rw [write_eq]
  exact grows_writeRecord d _ _ (w.grows_put d ifd) _ o v

end Writer

theorem wp_write (d : Dir) (b : Block) (o v : ℕ) (s : Context) :
    wp (fun _ => s.size < o + 12 ∨
        (b.writer.outside b.count = true ∧ s.size < v + b.elements.length))
      (b.writer.write d (b.info v) o v)
      (fun p t => o + 12 ≤ s.size ∧
        ((b.writer.outside b.count = false ∧ p = (o + 12, v) ∧
            t = (s.seek o).put (.record d b.tag) (b.record v)) ∨
          (b.writer.outside b.count = true ∧ v + b.elements.length ≤ s.size ∧
            p = (o + 12, align4 (v + b.elements.length)) ∧
            t = (((s.seek o).put (.record d b.tag) (b.record v)).seek v).put
              (.value d b.tag) b.elements) ∨
          (b.writer.outside b.count = true ∧ s.size < v + b.elements.length ∧
            b.writer.strict = false ∧ v ≤ s.size ∧ p.1 = o ∧
            Grows ((s.seek o).put (.record d b.tag) (b.record v)) t))) s := by
  have hputs : Puts (.value d (b.writer.prepare (b.info v)).tag)
      (writeEach (b.writer.put d (b.info v)) (b.writer.prepare (b.info v)).count 0)
      b.elements := by
    rw [Writer.tag_prepare, Writer.count_prepare, Block.elements, Writer.elements,
      List.range_eq_range']
    exact puts_writeEach (b.writer.puts_put d (b.info v)) _ _
  have hwrite := wp_writeRecord _ (b.writer.outside b.count) b.writer.strict hputs
    (b.writer.grows_put d (b.info v)) o v s
  rw [Writer.tag_prepare] at hwrite
  rw [Writer.write_eq]
  exact hwrite

/-! ## Following a plan -/

/-- The parts that are written more than once: the number of records, and the record of the
thumbnail's offset. -/
def Again : Part → Prop
  | .count _ => True
  | .record .ifd1 .jpegInterchangeFormat => True
  | _ => False

/-- A byte has been stored for two parts, or again for one that is written once. -/
def Clash (s : Context) : Prop := ¬ Store.Separate Again s.stores

/-- The position of the next record is taken by something that is neither one of the records
to come nor the pointer to the next directory. -/
def Off (d : Dir) (rest : List IfdTag) (offset : ℕ) (s : Context) : Prop :=
  ∃ w ∈ s.stores, w.addr = offset ∧ offset < s.size ∧ w.key ≠ .next d ∧
    ∀ tag ∈ rest, w.key ≠ .record d tag

/-- The cursor and the stores are as the plan says. -/
structure Follows (p : Plan) (c : Cursor) (s : Context) (c' : Cursor) (t : Context) : Prop where
  entries : c'.entries = c.entries + p.entries
  ifdOffset : c'.ifdOffset = c.ifdOffset + 12 * p.entries
  valueOffset : c'.valueOffset = (p.place c.ifdOffset c.valueOffset).stop
  size : t.size = s.size
  stores : t.stores = s.stores ++ (p.place c.ifdOffset c.valueOffset).stores
  inside : c'.ifdOffset ≤ s.size

/-- A part of a directory follows its plan as long as that fits; otherwise it fails, or ends
with the next record's position taken or a clash. `tags` are the records it may write. -/
structure Tracks (d : Dir) (m : Cursor → W Cursor) (p : Plan) (tags : List IfdTag) : Prop where
  grows : ∀ c, Keeps Grows (m c)
  follows : ∀ (rest : List IfdTag) (c : Cursor) (s : Context), (∀ tag ∈ tags, tag ∉ rest) →
    c.ifdOffset ≤ s.size →
      wp (fun _ => ¬ (p.place c.ifdOffset c.valueOffset).Fits s.size) (m c)
        (fun c' t =>
          ((p.place c.ifdOffset c.valueOffset).Fits s.size ∧ Follows p c s c' t) ∨
          (¬ (p.place c.ifdOffset c.valueOffset).Fits s.size ∧
            (Off d rest c'.ifdOffset t ∨ Clash t))) s
  off : ∀ (rest : List IfdTag) (c : Cursor) (s : Context), (∀ tag ∈ tags, tag ∉ rest) →
    Off d (tags ++ rest) c.ifdOffset s →
      wp (fun _ => True) (m c) (fun c' t => Off d rest c'.ifdOffset t ∨ Clash t) s

theorem Clash.of_grows (h : Clash s) (hst : Grows s t) : Clash t := by
  obtain ⟨new, hnew⟩ := hst.stores
  intro hsep
  rw [← hnew] at hsep
  exact h hsep.append_left

theorem wp_clash {α : Type} {m : W α} (hm : Keeps Grows m) (h : Clash s) :
    wp (fun _ => True) m (fun _ t => Clash t) s :=
  wp_mono (keeps_iff_wp.mp hm s) (fun _ he => he) fun _ _ ht => h.of_grows ht

theorem Off.of_grows {rest : List IfdTag} {offset : ℕ} (h : Off d rest offset s)
    (hst : Grows s t) : Off d rest offset t := by
  obtain ⟨w, hw, haddr, hlt, hkeys⟩ := h
  exact ⟨w, hst.stores.subset hw, haddr, hst.size ▸ hlt, hkeys⟩

theorem clash_of_off {rest : List IfdTag} {offset : ℕ} (h : Off d rest offset s)
    {part : Part} (hpart : part = .next d ∨ ∃ tag ∈ rest, part = .record d tag) {b : UInt8}
    {bytes : List UInt8} (hst : Grows ((s.seek offset).put part (b :: bytes)) t) : Clash t := by
  obtain ⟨w, hw, haddr, -, hnext, hrecord⟩ := h
  refine Clash.of_grows (fun hsep => ?_) hst
  have hpart' : (⟨part, offset, b⟩ : Store Part) ∈ Store.block part offset (b :: bytes) :=
    List.mem_cons_self
  refine Store.not_separate_of_mem (List.mem_append_left _ hw) (List.mem_append_right _ hpart')
    haddr (fun hkey => ?_) hsep
  obtain rfl | ⟨tag, htag, rfl⟩ := hpart
  · exact hnext hkey
  · exact hrecord tag htag hkey

theorem Off.lt {rest : List IfdTag} {offset : ℕ} (h : Off d rest offset s) : offset < s.size := by
  obtain ⟨-, -, -, hlt, -⟩ := h
  exact hlt

theorem Off.mono {rest rest' : List IfdTag} {offset : ℕ} (h : Off d rest offset s)
    (hrest : ∀ tag ∈ rest', tag ∈ rest) : Off d rest' offset s := by
  obtain ⟨w, hw, haddr, hlt, hnext, hrecord⟩ := h
  exact ⟨w, hw, haddr, hlt, hnext, fun tag htag => hrecord tag (hrest tag htag)⟩

theorem fits_append {l r : List (Store Part)} {n a b c : ℕ} :
    (⟨l ++ r, a⟩ : Placed).Fits n ↔ (⟨l, b⟩ : Placed).Fits n ∧ (⟨r, c⟩ : Placed).Fits n := by
  simp only [Placed.Fits, List.mem_append, or_imp, forall_and]

theorem fits_block {part : Part} {a : ℕ} {bytes : List UInt8} (h : bytes ≠ []) {n b : ℕ} :
    (⟨Store.block part a bytes, b⟩ : Placed).Fits n ↔ a + bytes.length ≤ n := by
  have hlength := List.length_pos_of_ne_nil h
  constructor
  · intro hfits
    have hcovers : Store.Covers (Store.block part a bytes) (a + bytes.length - 1) :=
      Store.covers_block part (by omega) (by omega)
    obtain ⟨w, hw, haddr⟩ := hcovers
    have hlt := hfits w hw
    omega
  · intro hle w hw
    have hwithin := Store.within_block part a bytes w hw
    omega

theorem tracks_nil (d : Dir) : Tracks d pure .nil [] where
  grows _ := grows_pure _
  follows _ c s _ hle := by
    refine .inl ⟨fun w hw => absurd hw List.not_mem_nil, ?_⟩
    exact ⟨rfl, rfl, rfl, rfl, (List.append_nil _).symm, hle⟩
  off _ _ _ _ hoff := .inl hoff

theorem Tracks.seq {m m' : Cursor → W Cursor} {p p' : Plan} {tags tags' : List IfdTag}
    (h : Tracks d m p tags) (h' : Tracks d m' p' tags') (htags : ∀ tag ∈ tags, tag ∉ tags') :
    Tracks d (fun c => m c >>= m') (p.seq p') (tags ++ tags') where
  grows c := grows_bind (h.grows c) h'.grows
  follows rest c s hrest hle := by
    have hfits : ((p.seq p').place c.ifdOffset c.valueOffset).Fits s.size ↔
        (p.place c.ifdOffset c.valueOffset).Fits s.size ∧
          (p'.place (c.ifdOffset + 12 * p.entries)
            (p.place c.ifdOffset c.valueOffset).stop).Fits s.size := fits_append
    have hrest' : ∀ tag ∈ tags', tag ∉ rest := fun tag htag =>
      hrest tag (List.mem_append_right _ htag)
    rw [wp_bind]
    refine wp_mono (h.follows (tags' ++ rest) c s (fun tag htag hmem => ?_) hle)
      (fun _ he hall => he (hfits.mp hall).1) fun c₁ t ht => ?_
    · rcases List.mem_append.mp hmem with hmem | hmem
      · exact htags tag htag hmem
      · exact hrest tag (List.mem_append_left _ htag) hmem
    obtain ⟨hfits₁, hfollows⟩ | ⟨hfull, hoff | hclash⟩ := ht
    · obtain ⟨hentries, hifd, hvalue, hsize, hstores, hinside⟩ := hfollows
      have hnext := h'.follows rest c₁ t hrest' (hsize ▸ hinside)
      rw [hifd, hvalue, hsize] at hnext
      refine wp_mono hnext (fun _ he hall => he (hfits.mp hall).2) fun c₂ u hu => ?_
      obtain ⟨hfits₂, hentries₂, hifd₂, hvalue₂, hsize₂, hstores₂, hinside₂⟩ | ⟨hfull, hrest⟩ := hu
      · refine .inl ⟨hfits.mpr ⟨hfits₁, hfits₂⟩, ?_⟩
        rw [hifd, hvalue] at hvalue₂ hstores₂
        refine ⟨?_, ?_, hvalue₂, hsize₂.trans hsize, ?_, hsize ▸ hinside₂⟩
        · rw [hentries₂, hentries, Nat.add_assoc]
          rfl
        · rw [hifd₂, hifd, Nat.add_assoc, ← Nat.mul_add]
          rfl
        · rw [hstores₂, hstores, List.append_assoc]
          rfl
      · exact .inr ⟨fun hall => hfull (hfits.mp hall).2, hrest⟩
    · refine wp_mono (h'.off rest c₁ t hrest' hoff) (fun _ _ hall => hfull (hfits.mp hall).1) ?_
      exact fun _ _ hu => .inr ⟨fun hall => hfull (hfits.mp hall).1, hu⟩
    · refine wp_mono (wp_clash (h'.grows c₁) hclash) (fun _ _ hall => hfull (hfits.mp hall).1) ?_
      exact fun _ _ hu => .inr ⟨fun hall => hfull (hfits.mp hall).1, .inr hu⟩
  off rest c s hrest hoff := by
    have hrest' : ∀ tag ∈ tags', tag ∉ rest := fun tag htag =>
      hrest tag (List.mem_append_right _ htag)
    rw [wp_bind]
    rw [List.append_assoc] at hoff
    refine wp_mono (h.off (tags' ++ rest) c s (fun tag htag hmem => ?_) hoff) (fun _ he => he)
      fun c₁ t ht => ?_
    · rcases List.mem_append.mp hmem with hmem | hmem
      · exact htags tag htag hmem
      · exact hrest tag (List.mem_append_left _ htag) hmem
    obtain hoff | hclash := ht
    · exact h'.off rest c₁ t hrest' hoff
    · exact wp_mono (wp_clash (h'.grows c₁) hclash) (fun _ he => he) fun _ _ hu => .inr hu

/-- A field whose elements are written behind the directory has some. -/
def Block.Sound (b : Block) : Prop :=
  b.supplied = true → b.writer.outside b.count = true → b.elements ≠ []

theorem writeField_of_supplied {b : Block} (h : b.supplied = true) (c : Cursor) :
    writeField d b c =
      b.writer.write d (b.info c.valueOffset) c.ifdOffset c.valueOffset >>= fun offsets =>
        pure ⟨c.entries + 1, offsets.1, offsets.2⟩ := by
  rw [writeField, if_pos h]
  rfl

theorem place_plan {b : Block} (h : b.supplied = true) (o v : ℕ) : (b.plan d).place o v =
    ⟨Store.block (.record d b.tag) o (b.record v) ++ (b.value d v).stores,
      (b.value d v).stop⟩ := by
  rw [Block.plan, if_pos h]

theorem entries_plan {b : Block} (h : b.supplied = true) : (b.plan d).entries = 1 := by
  rw [Block.plan, if_pos h]

theorem plan_of_not_supplied {b : Block} (h : b.supplied = false) : b.plan d = .nil := by
  rw [Block.plan, h]
  rfl

theorem record_eq_cons (b : Block) (v : ℕ) :
    b.record v = byteOf b.tag.code 1 :: (b.record v).tail := by
  rw [Block.record, IfdInfo.record, Writer.tag_prepare]
  rfl

theorem fits_plan {b : Block} (hb : b.Sound) (hsupplied : b.supplied = true) {o v n : ℕ} :
    ((b.plan d).place o v).Fits n ↔ o + 12 ≤ n ∧
      (b.writer.outside b.count = true → v + b.elements.length ≤ n) := by
  have hrecord : b.record v ≠ [] := List.cons_ne_nil _ _
  have hvalue : (⟨(b.value d v).stores, 0⟩ : Placed).Fits n ↔
      (b.writer.outside b.count = true → v + b.elements.length ≤ n) := by
    rw [Block.value]
    cases hout : b.writer.outside b.count with
    | true => exact (fits_block (hb hsupplied hout)).trans ⟨fun h _ => h, fun h => h rfl⟩
    | false => exact iff_of_true (fun w hw => absurd hw List.not_mem_nil) nofun
  rw [place_plan hsupplied, fits_append (b := 0) (c := 0), fits_block hrecord, hvalue]
  rfl

/-- The record of a field whose value does not fit is there, and the next one goes to the same
position. -/
theorem off_of_grows {b : Block} {rest : List IfdTag} {o v : ℕ} (hrest : b.tag ∉ rest)
    (hroom : o + 12 ≤ s.size)
    (hgrows : Grows ((s.seek o).put (.record d b.tag) (b.record v)) t) : Off d rest o t := by
  have hmem : (⟨.record d b.tag, o, byteOf b.tag.code 1⟩ : Store Part) ∈
      ((s.seek o).put (.record d b.tag) (b.record v)).stores := by
    refine List.mem_append_right _ ?_
    rw [record_eq_cons]
    exact List.mem_cons_self
  refine ⟨_, hgrows.stores.subset hmem, rfl, ?_, nofun, fun tag htag hkey => ?_⟩
  · rw [hgrows.size, size_put, size_seek]
    exact Nat.lt_of_lt_of_le (Nat.lt_add_of_pos_right (by decide)) hroom
  · cases hkey
    exact hrest htag

theorem wp_writeField_follows {b : Block} (hb : b.Sound) (hsupplied : b.supplied = true)
    {rest : List IfdTag} (hrest : b.tag ∉ rest) (c : Cursor) (s : Context) :
    wp (fun _ => ¬ ((b.plan d).place c.ifdOffset c.valueOffset).Fits s.size) (writeField d b c)
      (fun c' t =>
        (((b.plan d).place c.ifdOffset c.valueOffset).Fits s.size ∧
          Follows (b.plan d) c s c' t) ∨
        (¬ ((b.plan d).place c.ifdOffset c.valueOffset).Fits s.size ∧
          (Off d rest c'.ifdOffset t ∨ Clash t))) s := by
  have hfits := fits_plan (d := d) hb hsupplied (o := c.ifdOffset) (v := c.valueOffset)
    (n := s.size)
  have hentries := entries_plan (d := d) hsupplied
  rw [writeField_of_supplied hsupplied, wp_bind]
  refine wp_mono (wp_write d b c.ifdOffset c.valueOffset s) (fun _ he hall => ?_) ?_
  · obtain ⟨hrecord, hvalue⟩ := hfits.mp hall
    obtain he | ⟨hout, hfull⟩ := he
    · omega
    · exact absurd (hvalue hout) (by omega)
  rintro ⟨o, v⟩ t ⟨hroom,
    ⟨hout, hp, rfl⟩ | ⟨hout, hfit, hp, rfl⟩ | ⟨hout, hfull, -, -, hp, hgrows⟩⟩
  · cases hp
    refine .inl ⟨hfits.mpr ⟨hroom, by simp [hout]⟩, ?_⟩
    refine ⟨by rw [hentries], by rw [hentries], ?_, rfl, ?_, hroom⟩
    · rw [place_plan hsupplied, Block.value, hout]
      rfl
    · rw [place_plan hsupplied, Block.value, hout]
      simp
  · cases hp
    refine .inl ⟨hfits.mpr ⟨hroom, fun _ => hfit⟩, ?_⟩
    refine ⟨by rw [hentries], by rw [hentries], ?_, rfl, ?_, hroom⟩
    · rw [place_plan hsupplied, Block.value, hout]
      rfl
    · rw [place_plan hsupplied, Block.value, hout]
      simp
  · simp only at hp
    subst hp
    refine .inr ⟨fun hall => absurd ((hfits.mp hall).2 hout) (by omega), .inl ?_⟩
    exact off_of_grows hrest hroom hgrows

theorem wp_writeField_off {b : Block} (hsupplied : b.supplied = true) {rest : List IfdTag}
    {c : Cursor} (hoff : Off d ([b.tag] ++ rest) c.ifdOffset s) :
    wp (fun _ => True) (writeField d b c) (fun _ t => Clash t) s := by
  rw [writeField_of_supplied hsupplied, wp_bind]
  refine wp_mono (wp_write d b c.ifdOffset c.valueOffset s) (fun _ _ => trivial) ?_
  have hstored : ∀ t, Grows ((s.seek c.ifdOffset).put (.record d b.tag)
      (b.record c.valueOffset)) t → Clash t := by
    rw [record_eq_cons]
    intro t ht
    exact clash_of_off hoff (.inr ⟨b.tag, List.mem_cons_self, rfl⟩) ht
  rintro p t ⟨-, ⟨-, -, rfl⟩ | ⟨-, -, -, rfl⟩ | ⟨-, -, -, -, -, hgrows⟩⟩
  · exact hstored _ (.refl _)
  · exact hstored _ ⟨rfl, List.prefix_append _ _⟩
  · exact hstored t hgrows

theorem tracks_field {b : Block} (hb : b.Sound) : Tracks d (writeField d b) (b.plan d) [b.tag] := by
  cases hsupplied : b.supplied with
  | false =>
      have hwrite : writeField d b = pure := by
        funext c
        rw [writeField, hsupplied]
        rfl
      rw [hwrite, plan_of_not_supplied hsupplied]
      have hnil := tracks_nil d
      exact ⟨hnil.grows, fun rest c s _ => hnil.follows rest c s nofun, fun rest c s _ hoff =>
        .inl (hoff.mono fun tag htag => List.mem_append_right _ htag)⟩
  | true =>
      refine ⟨fun c => ?_, fun rest c s hrest _ => ?_, fun rest c s _ hoff => ?_⟩
      · rw [writeField_of_supplied hsupplied]
        exact grows_bind (b.writer.grows_write d _ _ _) fun _ => grows_pure _
      · exact wp_writeField_follows hb hsupplied (hrest b.tag List.mem_cons_self) c s
      · exact wp_mono (wp_writeField_off hsupplied hoff) (fun _ he => he) fun _ _ ht => .inr ht

theorem tracks_fields (blocks : List Block) (hsound : ∀ b ∈ blocks, b.Sound)
    (hnodup : (blocks.map Block.tag).Nodup) :
    Tracks d (writeFields d blocks) (fieldsPlan d blocks) (blocks.map Block.tag) := by
  induction blocks with
  | nil => exact tracks_nil d
  | cons b blocks ih =>
      rw [List.map_cons, List.nodup_cons] at hnodup
      refine (tracks_field (hsound b List.mem_cons_self)).seq
        (ih (fun b' hb' => hsound b' (List.mem_cons_of_mem _ hb')) hnodup.2) fun tag htag => ?_
      rw [List.mem_singleton.mp htag]
      exact hnodup.1

/-! ## Directories -/

/-- A directory follows its layout as long as that fits; otherwise it fails, or there is a
clash, or its position could not be set and its number of records is where the last write
before has ended. -/
structure TracksDir (d : Dir) (write : ℕ → W ℕ) (sub : ℕ → Placed) : Prop where
  grows : ∀ b, Keeps Grows (write b)
  follows : ∀ (b : ℕ) (s : Context), s.pos ≤ s.size →
    wp (fun _ => ¬ (sub b).Fits s.size) (write b)
      (fun e t =>
        ((sub b).Fits s.size ∧ e = (sub b).stop ∧ t.size = s.size ∧ t.pos = b + 2 ∧
          t.stores = s.stores ++ (sub b).stores) ∨
        (¬ (sub b).Fits s.size ∧ (Clash t ∨ (s.size < b ∧
          ∃ w ∈ t.stores, w.addr = s.pos ∧ s.pos < t.size ∧ w.key = .count d)))) s

theorem wp_writeLongIFD (d : Dir) (tag : IfdTag) (o v : ℕ) (offset : ℕ) (s : Context) :
    wp (fun _ => s.size < o + 12)
      (writeLongIFD d ⟨tag, .long, 1, .ofLong offset, longs [UInt32.ofNat offset]⟩ o v)
      (fun p t => o + 12 ≤ s.size ∧ p = (o + 12, v) ∧
        t = (s.seek o).put (.record d tag) (pointerRecord tag offset)) s := by
  let ifd : IfdInfo := ⟨tag, .long, 1, .ofLong offset, longs [UInt32.ofNat offset]⟩
  have hwrite := wp_writeRecord (Writer.long.prepare ifd) false true
    (puts_writeEach (Writer.long.puts_put d ifd) 1 0) (Writer.long.grows_put d ifd) o v s
  refine wp_mono hwrite (fun _ he => he.resolve_right nofun) ?_
  rintro p t ⟨hroom, ⟨-, hp, ht⟩ | ⟨hout, -⟩ | ⟨hout, -⟩⟩
  · exact ⟨hroom, hp, ht⟩
  · cases hout
  · cases hout

theorem tracks_pointer {d' : Dir} {tag : IfdTag} {write : ℕ → W ℕ} {sub : ℕ → Placed}
    (h : TracksDir d' write sub) :
    Tracks d (writePointer d tag write) (pointerPlan d tag sub) [tag] := by
  have hhead : ∀ v, pointerRecord tag v = byteOf tag.code 1 :: (pointerRecord tag v).tail :=
    fun _ => rfl
  have hgrows : ∀ c, Keeps Grows (writePointer d tag write c) := fun c =>
    grows_bind (Writer.grows_write .long d _ _ _) fun _ =>
      grows_bind (h.grows _) fun _ => grows_pure _
  refine ⟨hgrows, fun rest c s hrest hle => ?_, fun rest c s hrest hoff => ?_⟩
  · have hfits : ((pointerPlan d tag sub).place c.ifdOffset c.valueOffset).Fits s.size ↔
        c.ifdOffset + 12 ≤ s.size ∧ (sub (align4 c.valueOffset)).Fits s.size :=
      (fits_append (b := 0) (c := (sub (align4 c.valueOffset)).stop)).trans
        (and_congr (fits_block (List.cons_ne_nil _ _)) Iff.rfl)
    rw [writePointer, wp_bind]
    refine wp_mono (wp_writeLongIFD d tag c.ifdOffset (align4 c.valueOffset) _ s)
      (fun _ he hall => absurd (hfits.mp hall).1 (Nat.not_le.mpr he)) ?_
    rintro p t ⟨hroom, rfl, rfl⟩
    rw [wp_bind]
    refine wp_mono (h.follows (align4 c.valueOffset) _ hroom)
      (fun _ he hall => he (hfits.mp hall).2) fun e u hu => ?_
    obtain ⟨hsub, rfl, hsize, -, hstores⟩ | ⟨hfull, hclash | ⟨-, w, hw, haddr, hlt, hkey⟩⟩ := hu
    · refine .inl ⟨hfits.mpr ⟨hroom, hsub⟩, rfl, rfl, rfl, hsize, ?_, hroom⟩
      rw [hstores, stores_put, stores_seek, List.append_assoc]
      rfl
    · exact .inr ⟨fun hall => hfull (hfits.mp hall).2, .inr hclash⟩
    · refine .inr ⟨fun hall => hfull (hfits.mp hall).2, .inl ⟨w, hw, haddr, ?_, ?_, ?_⟩⟩
      · exact hlt
      · rw [hkey]
        nofun
      · intro tag' _
        rw [hkey]
        nofun
  · rw [writePointer, wp_bind]
    refine wp_mono (wp_writeLongIFD d tag c.ifdOffset (align4 c.valueOffset) _ s)
      (fun _ _ => trivial) ?_
    rintro p t ⟨-, rfl, rfl⟩
    have hclash : Clash ((s.seek c.ifdOffset).put (.record d tag)
        (pointerRecord tag (align4 c.valueOffset - IFH))) := by
      rw [hhead]
      exact clash_of_off hoff (.inr ⟨tag, List.mem_cons_self, rfl⟩) (.refl _)
    have hrest : Keeps Grows (write (align4 c.valueOffset) >>= fun v =>
        (pure ⟨c.entries + 1, c.ifdOffset + 12, v⟩ : W Cursor)) :=
      grows_bind (h.grows _) fun _ => grows_pure _
    exact wp_mono (wp_clash hrest hclash) (fun _ he => he) fun _ _ ht => .inr ht

theorem tracks_optional {α : Type} (d : Dir) (tag : IfdTag) {d' : Dir} {write : α → ℕ → W ℕ}
    {sub : α → ℕ → Placed} (h : ∀ info, TracksDir d' (write info) (sub info))
    (info : Option α) :
    Tracks d (writeOptional d tag write info) (optionalPlan d tag sub info) [tag] := by
  cases info with
  | none =>
      have hnil := tracks_nil d
      exact ⟨hnil.grows, fun rest c s _ => hnil.follows rest c s nofun, fun rest c s _ hoff =>
        .inl (hoff.mono fun tag htag => List.mem_append_right _ htag)⟩
  | some info => exact tracks_pointer (h info)

def writeFinish (d : Dir) (next : ℕ → ℕ) (beginOffset : ℕ) (c : Cursor) : W ℕ := do
  let _ ← setWritePos c.ifdOffset
  must (writeL (.next d) (next c.valueOffset))
  let _ ← setWritePos beginOffset
  must (writeW (.count d) c.entries)
  pure c.valueOffset

theorem grows_writeFinish (d : Dir) (next : ℕ → ℕ) (b : ℕ) (c : Cursor) :
    Keeps Grows (writeFinish d next b c) :=
  grows_bind (grows_setWritePos _) fun _ => grows_bind (grows_must (grows_writeL _ _)) fun _ =>
    grows_bind (grows_setWritePos b) fun _ => grows_bind (grows_must (grows_writeW _ _)) fun _ =>
      grows_pure _

theorem wp_writeFinish (d : Dir) (next : ℕ → ℕ) {b : ℕ} {c : Cursor} {s : Context}
    (hb : b + 2 ≤ s.size) (hc : c.ifdOffset ≤ s.size) :
    wp (fun _ => s.size < c.ifdOffset + 4) (writeFinish d next b c)
      (fun e t => c.ifdOffset + 4 ≤ s.size ∧ e = c.valueOffset ∧
        t = (((s.seek c.ifdOffset).put (.next d) (be32 (next c.valueOffset))).seek b).put
          (.count d) (be16 c.entries)) s := by
  rw [writeFinish, wp_bind, wp_setWritePos]
  refine ⟨fun hfull => absurd hc (Nat.not_le.mpr hfull), fun _ => ?_⟩
  rw [wp_bind, (puts_writeL (.next d) _).must _ _ _ hc]
  refine ⟨fun hroom => ?_, fun hfull => hfull⟩
  rw [wp_bind, wp_setWritePos]
  refine ⟨fun hfull => ?_, fun hle => ?_⟩
  · rw [size_put, size_seek] at hfull
    omega
  · rw [wp_bind, (puts_writeW (.count d) c.entries).must _ _ _ hle]
    exact ⟨fun _ => ⟨hroom, rfl, rfl⟩, fun hfull => absurd hb (Nat.not_le.mpr hfull)⟩

theorem fits_directoryLayout (d : Dir) (reserved : ℕ) (p : Plan) (next : ℕ → ℕ) (b n : ℕ) :
    (directoryLayout d reserved p next b).Fits n ↔ b + 2 ≤ n ∧
      (p.place (b + 2) (align4 (b + 2 + reserved * IFD_HEAD_LENGTH + 4))).Fits n ∧
        b + 2 + 12 * p.entries + 4 ≤ n := by
  let placed := p.place (b + 2) (align4 (b + 2 + reserved * IFD_HEAD_LENGTH + 4))
  have hcount : ∀ k, (⟨Store.block (.count d) b (be16 k), 0⟩ : Placed).Fits n ↔ b + 2 ≤ n :=
    fun k => fits_block (List.cons_ne_nil _ _)
  have hnext : (⟨Store.block (.next d) (b + 2 + 12 * p.entries) (be32 (next placed.stop)), 0⟩ :
      Placed).Fits n ↔ b + 2 + 12 * p.entries + 4 ≤ n := fits_block (List.cons_ne_nil _ _)
  refine (fits_append (b := 0) (c := 0)).trans ?_
  refine (and_congr ((fits_append (b := 0) (c := 0)).trans
    (and_congr ((fits_append (b := 0) (c := placed.stop)).trans
      (and_congr (hcount _) Iff.rfl)) hnext)) (hcount _)).trans ?_
  tauto

theorem tracksDir_directory {reserved : ℕ} {body : Cursor → W Cursor} {p : Plan}
    {tags : List IfdTag} (h : Tracks d body p tags) (next : ℕ → ℕ) :
    TracksDir d (writeDirectory d reserved body next) (directoryLayout d reserved p next) := by
  have hgrows : ∀ b, Keeps Grows (must (writeW (.count d) reserved) >>= fun _ =>
      getWritePos >>= fun o => body ⟨0, o, align4 (o + reserved * IFD_HEAD_LENGTH + 4)⟩ >>=
        writeFinish d next b) := fun b =>
    grows_bind (grows_must (grows_writeW _ _)) fun _ => grows_bind grows_getWritePos fun _ =>
      grows_bind (h.grows _) (grows_writeFinish d next b)
  refine ⟨fun b => grows_bind (grows_setWritePos b) fun _ => hgrows b, fun b s hpos => ?_⟩
  have hfits := fits_directoryLayout d reserved p next b s.size
  change wp _ (setWritePos b >>= fun _ => must (writeW (.count d) reserved) >>= fun _ =>
    getWritePos >>= fun o => body ⟨0, o, align4 (o + reserved * IFD_HEAD_LENGTH + 4)⟩ >>=
      writeFinish d next b) _ s
  rw [wp_bind, wp_setWritePos]
  constructor
  · -- the position could not be set
    intro hfull
    have hnot : ¬ (directoryLayout d reserved p next b).Fits s.size := fun hall => by
      have := (hfits.mp hall).1
      omega
    rw [wp_bind, (puts_writeW (.count d) reserved).must _ _ _ hpos]
    refine ⟨fun hroom => ?_, fun _ => hnot⟩
    have hmem : (⟨.count d, s.pos, byteOf reserved 1⟩ : Store Part) ∈
        (s.put (.count d) (be16 reserved)).stores :=
      List.mem_append_right _ List.mem_cons_self
    have hkeeps : Keeps Grows (getWritePos >>= fun o =>
        body ⟨0, o, align4 (o + reserved * IFD_HEAD_LENGTH + 4)⟩ >>= writeFinish d next b) :=
      grows_bind grows_getWritePos fun _ => grows_bind (h.grows _) (grows_writeFinish d next b)
    refine wp_mono (keeps_iff_wp.mp hkeeps _) (fun _ _ => hnot) fun e t ht => ?_
    refine .inr ⟨hnot, .inr ⟨hfull, _, ht.stores.subset hmem, rfl, ?_, rfl⟩⟩
    rw [ht.size, size_put]
    exact Nat.lt_of_lt_of_le (Nat.lt_add_of_pos_right Nat.two_pos) hroom
  · intro hb
    rw [wp_bind, (puts_writeW (.count d) reserved).must _ _ _ hb]
    refine ⟨fun hroom => ?_, fun hfull hall => absurd (hfits.mp hall).1 (Nat.not_le.mpr hfull)⟩
    rw [wp_bind, wp_getWritePos, wp_bind]
    have hroom' : b + 2 ≤ s.size := hroom
    have hbody := wp_and (h.follows [] ⟨0, b + 2, align4 (b + 2 + reserved * IFD_HEAD_LENGTH + 4)⟩
      ((s.seek b).put (.count d) (be16 reserved)) (fun _ _ => List.not_mem_nil) hroom)
      (keeps_iff_wp.mp (h.grows _) _)
    refine wp_mono hbody (fun _ he hall => he.1 (hfits.mp hall).2.1) fun c t ht => ?_
    obtain ⟨⟨hplaced, hentries, hifd, hvalue, -, hstores, hinside⟩ | ⟨hfull, hoff⟩, hgrow⟩ := ht
    · have hsize' : t.size = s.size := hgrow.size
      have hinside' : c.ifdOffset ≤ s.size := hinside
      have hifd' : c.ifdOffset = b + 2 + 12 * p.entries := hifd
      refine wp_mono (wp_writeFinish d next (b := b) (by omega) (by omega))
        (fun _ he hall => ?_) ?_
      · have := (hfits.mp hall).2.2
        omega
      rintro e u ⟨hlast, rfl, rfl⟩
      refine .inl ⟨hfits.mpr ⟨hroom', hplaced, by omega⟩, hvalue, hsize', rfl, ?_⟩
      rw [stores_put, stores_seek, stores_put, stores_seek, hstores, stores_put, stores_seek,
        hentries, hifd, hvalue]
      simp only [List.append_assoc, directoryLayout, pos_seek, Nat.zero_add]
    · have hnot : ¬ (directoryLayout d reserved p next b).Fits s.size := fun hall =>
        hfull (hfits.mp hall).2.1
      obtain hoff | hclash := hoff
      · have hb' : b + 2 ≤ t.size := hgrow.size ▸ hroom'
        refine wp_mono (wp_writeFinish d next hb' (Nat.le_of_lt hoff.lt)) (fun _ _ => hnot) ?_
        rintro e u ⟨-, -, rfl⟩
        refine .inr ⟨hnot, .inl ?_⟩
        have hstored : Grows ((t.seek c.ifdOffset).put (.next d) (be32 (next c.valueOffset)))
            ((((t.seek c.ifdOffset).put (.next d) (be32 (next c.valueOffset))).seek b).put
              (.count d) (be16 c.entries)) := ⟨rfl, List.prefix_append _ _⟩
        exact clash_of_off hoff (.inl rfl) hstored
      · exact wp_mono (wp_clash (grows_writeFinish d next b c) hclash) (fun _ _ => hnot)
          fun _ _ hu => .inr ⟨hnot, .inl hu⟩

end Exif

end Tarako
