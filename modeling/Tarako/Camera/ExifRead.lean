import Tarako.Camera.ExifRanges
import Tarako.Lib.Tiff

/-!
# The EXIF segment read back

What a reader of TIFF directories finds in the stores of a layout. An entry has the value of
its field when the writer of the field is one for the field's type; what it has when that is
not so is said by `Block.entry`.
-/

namespace Tarako

namespace Exif

open Store

variable {m : Memory} {d : Dir}

/-! ## Words -/

theorem byteOf_mod (x : ℕ) {i : ℕ} (h : i < 4) : byteOf (x % 4294967296) i = byteOf x i := by
  have hi : i = 0 ∨ i = 1 ∨ i = 2 ∨ i = 3 := by omega
  apply UInt8.toNat_inj.mp
  rcases hi with rfl | rfl | rfl | rfl <;> simp only [byteOf, UInt8.toNat_ofNat'] <;> omega

theorem be32_mod (x : ℕ) : be32 (x % 4294967296) = be32 x := by
  simp only [be32, byteOf_mod x (show 0 < 4 by decide), byteOf_mod x (show 1 < 4 by decide),
    byteOf_mod x (show 2 < 4 by decide), byteOf_mod x (show 3 < 4 by decide)]

theorem number_be16 (x : ℕ) : Tiff.number (be16 x) = x % 65536 := by
  simp only [Tiff.number, be16, byteOf, List.foldl_cons, List.foldl_nil, UInt8.toNat_ofNat']
  omega

theorem number_be32 (x : ℕ) : Tiff.number (be32 x) = x % 4294967296 := by
  simp only [Tiff.number, be32, byteOf, List.foldl_cons, List.foldl_nil, UInt8.toNat_ofNat']
  omega

theorem be32_eq_append {x y : ℕ} (h : y < 65536) : be32 (x * 65536 + y) = be16 x ++ be16 y := by
  simp only [be32, be16, byteOf, List.cons_append, List.nil_append, List.cons.injEq, and_true,
    ← UInt8.toNat_inj, UInt8.toNat_ofNat']
  omega

theorem be32_bytes (a b c d : UInt8) :
    be32 (a.toNat * 256 ^ 3 + b.toNat * 256 ^ 2 + c.toNat * 256 + d.toNat) = [a, b, c, d] := by
  have ha := a.toNat_lt
  have hb := b.toNat_lt
  have hc := c.toNat_lt
  have hd := d.toNat_lt
  simp only [be32, byteOf, List.cons.injEq, and_true, ← UInt8.toNat_inj, UInt8.toNat_ofNat']
  omega

theorem longValue_ofLong (x : ℕ) : (ValueOffset.ofLong x).longValue = x % 4294967296 := by
  simp only [ValueOffset.longValue, ValueOffset.shortValue0, ValueOffset.shortValue1,
    ValueOffset.ofLong, byteOf, UInt8.toNat_ofNat']
  omega

theorem shortValue0_setShort0 (v : ValueOffset) (x : ℕ) :
    (v.setShort0 x).shortValue0 = x % 65536 := by
  simp only [ValueOffset.shortValue0, ValueOffset.setShort0, byteOf, UInt8.toNat_ofNat']
  omega

theorem shortValue1_setShort1 (v : ValueOffset) (x : ℕ) :
    (v.setShort1 x).shortValue1 = x % 65536 := by
  simp only [ValueOffset.shortValue1, ValueOffset.setShort1, byteOf, UInt8.toNat_ofNat']
  omega

theorem IfdTag.code_lt (tag : IfdTag) : tag.code < 65536 := by
  cases tag <;> decide

theorem IfdType.code_lt (type : IfdType) : type.code < 65536 := by
  cases type <;> decide

theorem bytes_of_shows {key : Part} {a : ℕ} {l : List UInt8} (h : Shows m (block key a l)) :
    Tiff.bytes m a l.length = l :=
  Tiff.bytes_eq fun _ hi => h.getElem hi

/-! ## The elements -/

def Writer.width : Writer → ℕ
  | .rational => 8
  | .long => 4
  | .short => 2
  | .byte => 1

theorem Writer.length_element (w : Writer) (p : Memory) (i : ℕ) :
    (w.element p i).length = w.width := by
  cases w <;> rfl

theorem Writer.length_elements (w : Writer) (p : Memory) (count : ℕ) :
    (w.elements p count).length = w.width * count := by
  induction count with
  | zero => rfl
  | succ n ih =>
      rw [Writer.elements] at ih ⊢
      rw [List.range_succ, List.flatMap_append, List.length_append, ih, List.flatMap_singleton,
        w.length_element, Nat.mul_succ]

theorem Writer.width_pos (w : Writer) : 0 < w.width := by
  cases w <;> decide

theorem Writer.le_of_outside {w : Writer} {count : ℕ} (h : w.outside count = false) :
    count ≤ 4 := by
  cases w <;> simp [Writer.outside] at h <;> omega

theorem Writer.prepare_of_outside {w : Writer} {ifd : IfdInfo} (h : w.outside ifd.count = true) :
    w.prepare ifd = ifd := by
  cases w <;> simp only [Writer.outside, decide_eq_true_eq] at h
  · rfl
  all_goals exact if_neg (Nat.not_le.mpr h)

theorem IfdInfo.offsetValue_of_lt {ifd : IfdInfo}
    (h : 4 < Tiff.typeSize ifd.type.code * ifd.count) :
    ifd.offsetValue = ifd.valueOffset.longValue := by
  rw [offsetValue]
  cases htype : ifd.type <;> rw [htype] at h <;> simp only [IfdType.code, Tiff.typeSize] at h
  case byte | ascii | undefined => exact if_neg (by omega)
  case short => exact if_neg (by omega)

namespace Block

variable {b : Block} {o v : ℕ}

def size (b : Block) : ℕ := Tiff.typeSize b.type.code * b.count

def offsetValue (b : Block) (v : ℕ) : ℕ := (b.writer.prepare (b.info v)).offsetValue

def entry (b : Block) (v : ℕ) : Tiff.Entry where
  tag := b.tag.code
  type := b.type.code
  count := b.count
  value := if b.size ≤ 4 then (be32 (b.offsetValue v)).take b.size else b.elements.take b.size

/-- A value that a reader expects behind the directory is there. -/
def Outside (b : Block) : Prop :=
  4 < b.size → b.writer.outside b.count = true ∧ b.size ≤ b.elements.length

theorem record_eq (b : Block) (v : ℕ) : b.record v =
    be16 b.tag.code ++ be16 b.type.code ++ be32 b.count ++ be32 (b.offsetValue v) := by
  obtain ⟨supplied, tag, type, count, valuePtr, writer⟩ := b
  rw [record, IfdInfo.record, offsetValue]
  cases writer <;> simp only [Writer.prepare] <;> try rfl
  all_goals split <;> rfl

theorem count_lt (hstop : (b.value d v).stop < 65536) : b.count < 65536 := by
  rw [value] at hstop
  split at hstop
  · have halign := le_align4 (v + b.elements.length)
    have hlength := b.writer.length_elements b.valuePtr b.count
    have hle := Nat.le_mul_of_pos_left b.count b.writer.width_pos
    have hstop' : align4 (v + b.elements.length) < 65536 := hstop
    rw [elements] at *
    omega
  · have hle := Writer.le_of_outside (eq_false_of_ne_true ‹_›)
    omega

theorem offsetValue_of_lt (hout : b.writer.outside b.count = true) (hsize : 4 < b.size)
    (hv : v < 65536) : b.offsetValue v = v - IFH := by
  have hlong : (b.info v).offsetValue = (b.info v).valueOffset.longValue :=
    IfdInfo.offsetValue_of_lt hsize
  rw [offsetValue, Writer.prepare_of_outside hout, hlong, info, longValue_ofLong]
  omega

theorem entry_of_shows (houtside : b.Outside) (hv : IFH ≤ v)
    (hstop : (b.value d v).stop < 65536)
    (hrecord : Shows m (Store.block (Part.record d b.tag) o (b.record v)))
    (hvalue : Shows m (b.value d v).stores) : Tiff.entry m IFH o = b.entry v := by
  have hcount : b.count < 4294967296 := Nat.lt_trans (count_lt hstop) (by decide)
  have hlt : v < 65536 := Nat.lt_of_le_of_lt (b.value_within d v).1 hstop
  have hbytes : Tiff.bytes m o 12 = b.record v := bytes_of_shows hrecord
  rw [Tiff.entry_eq rfl rfl rfl (hbytes.trans (b.record_eq v)), number_be16, number_be16,
    number_be32, number_be32, Nat.mod_eq_of_lt b.tag.code_lt, Nat.mod_eq_of_lt b.type.code_lt,
    Nat.mod_eq_of_lt hcount, entry]
  change (⟨_, _, _, if b.size ≤ 4 then _ else _⟩ : Tiff.Entry) = _
  congr 1
  split
  · rfl
  · have hsize := Nat.not_le.mp ‹_›
    obtain ⟨hout, hle⟩ := houtside hsize
    rw [value, if_pos hout] at hvalue
    rw [offsetValue_of_lt hout hsize hlt, Nat.mod_eq_of_lt (by omega), Nat.add_sub_cancel' hv]
    exact (Tiff.bytes_take m v hle).trans (congrArg (List.take b.size) (bytes_of_shows hvalue))

/-! ### The writer of the type -/

/-- The writer is one for the type. -/
def Regular (b : Block) : Prop := Tiff.typeSize b.type.code = b.writer.width

instance (b : Block) : Decidable b.Regular := inferInstanceAs (Decidable (_ = _))

theorem length_elements_of_regular (h : b.Regular) : b.elements.length = b.size := by
  rw [elements, Writer.length_elements, size, h]

theorem outside_of_regular (h : b.Regular) : b.Outside := by
  intro hsize
  refine ⟨?_, Nat.le_of_eq (length_elements_of_regular h).symm⟩
  rw [size, h] at hsize
  cases hw : b.writer <;> rw [hw] at hsize <;>
    simp only [Writer.outside, Writer.width, decide_eq_true_eq] at hsize ⊢ <;> omega

theorem offsetValue_long {supplied : Bool} {tag : IfdTag} {type : IfdType} {p : Memory} {v : ℕ}
    (h : Tiff.typeSize type.code = 4) :
    offsetValue ⟨supplied, tag, type, 1, p, .long⟩ v = (p.load32 0).toNat % 4294967296 := by
  have hlong := longValue_ofLong (p.load32 0).toNat
  cases type <;> first
    | exact hlong
    | exact absurd h (by decide)

theorem offsetValue_short {supplied : Bool} {tag : IfdTag} {type : IfdType} {count : ℕ}
    {p : Memory} {v : ℕ} (h : Tiff.typeSize type.code = 2) (hcount : count ≤ 2) :
    offsetValue ⟨supplied, tag, type, count, p, .short⟩ v =
      (load16 p 0).toNat * 65536 + if count = 2 then (load16 p 1).toNat else 0 := by
  cases type <;> first
    | exact absurd h (by decide)
    | skip
  rw [offsetValue, Writer.prepare, info, if_pos hcount, IfdInfo.offsetValue]
  simp only [if_pos hcount]
  have hvalue0 := shortValue0_setShort0 (.ofLong 0) (load16 p 0).toNat
  rw [Nat.mod_eq_of_lt (load16 p 0).toNat_lt] at hvalue0
  split
  · have hvalue1 := shortValue1_setShort1 ((ValueOffset.ofLong 0).setShort0 (load16 p 0).toNat)
      (load16 p 1).toNat
    rw [Nat.mod_eq_of_lt (load16 p 1).toNat_lt] at hvalue1
    rw [hvalue1]
    exact congrArg (· * 65536 + _) hvalue0
  · rw [hvalue0]
    rfl

theorem be32_offsetValue_byte {supplied : Bool} {tag : IfdTag} {type : IfdType} {count : ℕ}
    {p : Memory} {v : ℕ} (h : Tiff.typeSize type.code = 1) (hcount : count ≤ 4) :
    be32 (offsetValue ⟨supplied, tag, type, count, p, .byte⟩ v) =
      let w := (ValueOffset.ofLong (v - IFH)).setBytes p count
      [w.byte0, w.byte1, w.byte2, w.byte3] := by
  cases type <;> first
    | exact absurd h (by decide)
    | skip
  all_goals
    rw [offsetValue, Writer.prepare, info, if_pos hcount, IfdInfo.offsetValue]
    simp only [if_pos hcount]
    exact be32_bytes _ _ _ _

theorem take_be32_of_regular (h : b.Regular) (hsize : b.size ≤ 4) (v : ℕ) :
    (be32 (b.offsetValue v)).take b.size = b.elements := by
  obtain ⟨supplied, tag, type, count, p, writer⟩ := b
  have htype : Tiff.typeSize type.code = writer.width := h
  rw [size, htype] at hsize ⊢
  cases writer with
  | rational =>
      obtain rfl : count = 0 := by
        simp only [Writer.width] at hsize
        omega
      rfl
  | long =>
      simp only [Writer.width] at hsize ⊢
      obtain rfl | rfl : count = 0 ∨ count = 1 := by omega
      · rfl
      · rw [offsetValue_long htype, be32_mod]
        rfl
  | short =>
      simp only [Writer.width] at hsize ⊢
      rw [offsetValue_short htype (by omega)]
      obtain rfl | rfl | rfl : count = 0 ∨ count = 1 ∨ count = 2 := by omega
      · rfl
      · rw [if_neg (by decide), be32_eq_append (by decide)]
        rfl
      · rw [if_pos rfl, be32_eq_append (load16 p 1).toNat_lt]
        rfl
  | byte =>
      simp only [Writer.width, Nat.one_mul] at hsize ⊢
      rw [be32_offsetValue_byte htype hsize]
      obtain rfl | rfl | rfl | rfl | rfl :
        count = 0 ∨ count = 1 ∨ count = 2 ∨ count = 3 ∨ count = 4 := by omega
      all_goals rfl

/-- A field whose writer is one for its type is found with its elements. -/
theorem entry_of_regular (h : b.Regular) (v : ℕ) :
    b.entry v = ⟨b.tag.code, b.type.code, b.count, b.elements⟩ := by
  rw [entry]
  congr 1
  split
  · exact take_be32_of_regular h ‹_› v
  · exact List.take_of_length_le (Nat.le_of_eq (length_elements_of_regular h))

/-! ### The slots of a table -/

def slot (b : Block) (v : ℕ) : ℕ × Option Tiff.Entry :=
  (b.tag.code, if b.supplied then some (b.entry v) else none)

def stop (b : Block) (v : ℕ) : ℕ :=
  if b.supplied ∧ b.writer.outside b.count = true then align4 (v + b.elements.length) else v

theorem stop_plan (d : Dir) (b : Block) (o v : ℕ) : ((b.plan d).place o v).stop = b.stop v := by
  rw [plan, stop]
  by_cases hsupplied : b.supplied = true
  · rw [if_pos hsupplied]
    change (b.value d v).stop = _
    by_cases hout : b.writer.outside b.count = true
    · rw [value, if_pos hout, if_pos ⟨hsupplied, hout⟩]
    · rw [value, if_neg hout, if_neg fun h => hout h.2]
  · rw [if_neg hsupplied, if_neg fun h => hsupplied h.1]
    rfl

end Block

/-- The slots of a table whose values begin at `v`. -/
def slots : List Block → ℕ → Tiff.Slots
  | [], _ => []
  | b :: blocks, v => b.slot v :: slots blocks (b.stop v)

def stops (blocks : List Block) (v : ℕ) : ℕ := blocks.foldl (fun v b => b.stop v) v

theorem stop_fieldsPlan (d : Dir) (blocks : List Block) (o v : ℕ) :
    ((fieldsPlan d blocks).place o v).stop = stops blocks v := by
  induction blocks generalizing o v with
  | nil => rfl
  | cons b blocks ih =>
      change ((fieldsPlan d blocks).place _ ((b.plan d).place o v).stop).stop = _
      rw [ih, Block.stop_plan]
      rfl

theorem stops_append (blocks blocks' : List Block) (v : ℕ) :
    stops (blocks ++ blocks') v = stops blocks' (stops blocks v) := List.foldl_append

theorem slots_append (blocks blocks' : List Block) (v : ℕ) :
    slots (blocks ++ blocks') v = slots blocks v ++ slots blocks' (stops blocks v) := by
  induction blocks generalizing v with
  | nil => rfl
  | cons b blocks ih => exact congrArg (b.slot v :: ·) (ih (b.stop v))

/-! ## Parts of a directory -/

/-- What is found of the records of a part, by the offsets of its records and its values. -/
def Plan.Reads (m : Memory) (p : Plan) (found : ℕ → ℕ → List Tiff.Entry) : Prop :=
  ∀ o v, o + 12 * p.entries ≤ v → IFH ≤ v → (p.place o v).stop < 65536 →
    Shows m (p.place o v).stores → Tiff.entries m IFH p.entries o = found o v

theorem reads_nil : Plan.nil.Reads m fun _ _ => [] := fun _ _ _ _ _ _ => rfl

theorem Plan.Ranged.shows_seq {p q : Plan} (hp : p.Ranged) (hq : q.Ranged) {o v : ℕ}
    (hle : o + 12 * (p.entries + q.entries) ≤ v)
    (h : Shows m ((p.seq q).place o v).stores) :
    Shows m (p.place o v).stores ∧
      Shows m (q.place (o + 12 * p.entries) (p.place o v).stop).stores := by
  refine ⟨Shows.left h ?_, Shows.right h⟩
  have hstop := hp.le_stop o v
  rintro a ⟨w, hw, rfl⟩ ⟨w', hw', haddr⟩
  have hin := hp.within o v w hw
  have hin' := hq.within _ _ w' hw'
  omega

theorem Plan.Reads.seq {p q : Plan} {found found' : ℕ → ℕ → List Tiff.Entry} (hp : p.Ranged)
    (hq : q.Ranged) (h : p.Reads m found) (h' : q.Reads m found') :
    (p.seq q).Reads m fun o v =>
      found o v ++ found' (o + 12 * p.entries) (p.place o v).stop := by
  intro o v hle hv hstop hshows
  have hle' : o + 12 * (p.entries + q.entries) ≤ v := hle
  have hfirst := hp.le_stop o v
  have hsecond := hq.le_stop (o + 12 * p.entries) (p.place o v).stop
  have hstop' : (q.place (o + 12 * p.entries) (p.place o v).stop).stop < 65536 := hstop
  obtain ⟨hleft, hright⟩ := hp.shows_seq hq hle' hshows
  have hfound := h o v (by omega) hv (by omega) hleft
  have hfound' := h' _ _ (by omega) (by omega) hstop' hright
  exact (Tiff.entries_add m IFH p.entries q.entries o).trans
    (congrArg₂ (· ++ ·) hfound hfound')

theorem reads_plan (d : Dir) {b : Block} (h : b.supplied = true → b.Outside) :
    (b.plan d).Reads m fun _ v => Tiff.Slots.entries [b.slot v] := by
  cases hsupplied : b.supplied with
  | false =>
      have hplan : b.plan d = .nil := by
        rw [Block.plan, hsupplied]
        rfl
      have hslot : ∀ v, Tiff.Slots.entries [b.slot v] = [] := by
        intro v
        rw [Block.slot, hsupplied]
        rfl
      simp only [hplan, hslot]
      exact reads_nil
  | true =>
      rw [Block.plan, if_pos hsupplied]
      intro o v hle hv hstop hshows
      have hle' : o + 12 ≤ v := hle
      have hwithin := (b.value_within d v).2
      have hrecord : Shows m (block (Part.record d b.tag) o (b.record v)) := by
        refine hshows.left ?_
        rintro a ⟨w, hw, rfl⟩ ⟨w', hw', haddr⟩
        have hin := within_block _ o (b.record v) w hw
        have hin' := hwithin w' hw'
        rw [length_block_record] at hin
        omega
      have hentry := Block.entry_of_shows (h hsupplied) hv hstop hrecord hshows.right
      change [Tiff.entry m IFH o] = Tiff.Slots.entries [b.slot v]
      rw [hentry, Block.slot, hsupplied]
      rfl

theorem reads_fieldsPlan (d : Dir) {blocks : List Block}
    (h : ∀ b ∈ blocks, b.supplied = true → b.Outside) :
    (fieldsPlan d blocks).Reads m fun _ v => (slots blocks v).entries := by
  induction blocks with
  | nil => exact reads_nil
  | cons b blocks ih =>
      have hrest := ih fun b' hb' => h b' (List.mem_cons_of_mem _ hb')
      have hseq := (reads_plan d (h b List.mem_cons_self)).seq (ranged_plan d b)
        (ranged_fieldsPlan d blocks) hrest
      intro o v hle hv hstop hshows
      refine (hseq o v hle hv hstop hshows).trans ?_
      simp only [Block.stop_plan, Tiff.Slots.entries, ← List.filterMap_append]
      rfl

/-! ## Pointers -/

def pointerEntry (tag : IfdTag) (offset : ℕ) : Tiff.Entry :=
  ⟨tag.code, IfdType.long.code, 1, be32 offset⟩

theorem load32_longs (x : UInt32) : (longs [x]).load32 0 = x := Words.word32_bytes32 x

theorem pointerRecord_eq (tag : IfdTag) (offset : ℕ) : pointerRecord tag offset =
    be16 tag.code ++ be16 IfdType.long.code ++ be32 1 ++ be32 offset := by
  have hoffset : (Writer.long.prepare ⟨tag, .long, 1, .ofLong offset,
      longs [UInt32.ofNat offset]⟩).offsetValue = offset % 4294967296 := by
    refine (longValue_ofLong _).trans ?_
    rw [load32_longs, UInt32.toNat_ofNat', Nat.mod_mod]
  rw [pointerRecord, IfdInfo.record, hoffset, be32_mod]
  rfl

theorem entry_pointer {tag : IfdTag} {o offset : ℕ}
    (h : Shows m (block (Part.record d tag) o (pointerRecord tag offset))) :
    Tiff.entry m IFH o = pointerEntry tag offset := by
  have hbytes : Tiff.bytes m o 12 = pointerRecord tag offset := bytes_of_shows h
  rw [Tiff.entry_eq rfl rfl rfl (hbytes.trans (pointerRecord_eq tag offset)), number_be16,
    Nat.mod_eq_of_lt tag.code_lt]
  rfl

theorem shows_pointerPlan {tag : IfdTag} {sub : ℕ → Placed} (hsub : ∀ b, Lies b (sub b)) {o v : ℕ}
    (hle : o + 12 ≤ v) (h : Shows m ((pointerPlan d tag sub).place o v).stores) :
    Tiff.entries m IFH 1 o = [pointerEntry tag (align4 v - IFH)] ∧
      Shows m (sub (align4 v)).stores := by
  have hrecord : Shows m (block (Part.record d tag) o (pointerRecord tag (align4 v - IFH))) := by
    refine Shows.left h ?_
    rintro a ⟨w, hw, rfl⟩ ⟨w', hw', haddr⟩
    have hin : w.addr < o + 12 := (within_block _ o (pointerRecord tag _) w hw).2
    have hin' := (hsub (align4 v)).within w' hw'
    have halign := le_align4 v
    omega
  exact ⟨congrArg (fun e => [e]) (entry_pointer hrecord), Shows.right h⟩

/-! ## Directories -/

/-- What is found of a directory: its entries, the offset of the next one, and what its body
has stored. -/
theorem directory_of_shows {reserved b : ℕ} {body : Plan} {next : ℕ → ℕ} (hbody : body.Ranged)
    (hentries : body.entries ≤ reserved) (hreserved : reserved < 65536) (hb : IFH ≤ b)
    (h : Shows m (directoryLayout d reserved body next b).stores) :
    let placed := body.place (b + 2) (align4 (b + 2 + reserved * IFD_HEAD_LENGTH + 4))
    Tiff.directory m IFH (b - IFH) = Tiff.entries m IFH body.entries (b + 2) ∧
      Tiff.next m IFH (b - IFH) = next placed.stop % 4294967296 ∧ Shows m placed.stores := by
  intro placed
  have hv : b + 2 + 12 * body.entries + 4 ≤
      align4 (b + 2 + reserved * IFD_HEAD_LENGTH + 4) := by
    have halign := le_align4 (b + 2 + reserved * IFD_HEAD_LENGTH + 4)
    have hlength : reserved * IFD_HEAD_LENGTH = 12 * reserved := Nat.mul_comm _ _
    omega
  have hwithin := hbody.within (b + 2) (align4 (b + 2 + reserved * IFD_HEAD_LENGTH + 4))
  have hcount := within_block (Part.count d) b (be16 body.entries)
  have hnext := within_block (Part.next d) (b + 2 + 12 * body.entries) (be32 (next placed.stop))
  have hbegin : IFH + (b - IFH) = b := Nat.add_sub_cancel' hb
  have hentries' : Tiff.word16 m b = body.entries := by
    have hbytes : Tiff.bytes m b 2 = be16 body.entries := bytes_of_shows h.right
    rw [Tiff.word16, hbytes, number_be16]
    omega
  have hbefore : Shows m (block (Part.count d) b (be16 reserved) ++ placed.stores ++
      block (Part.next d) (b + 2 + 12 * body.entries) (be32 (next placed.stop)) ++
      block (Part.count d) b (be16 body.entries)) := h
  refine ⟨?_, ?_, ?_⟩
  · rw [Tiff.directory, hbegin, hentries']
  · have hdisjoint : ∀ a, Covers (block (Part.next d) (b + 2 + 12 * body.entries)
        (be32 (next placed.stop))) a → ¬ Covers (block (Part.count d) b (be16 body.entries)) a := by
      rintro a ⟨w, hw, haddr⟩ ⟨w', hw', haddr'⟩
      have hin := hnext w hw
      have hin' := hcount w' hw'
      have hlength : (be16 body.entries).length = 2 := rfl
      omega
    have hshows := hbefore.infix hdisjoint
    have hbytes : Tiff.bytes m (b + 2 + 12 * body.entries) 4 = be32 (next placed.stop) :=
      bytes_of_shows hshows
    rw [Tiff.next, hbegin, hentries', Tiff.word32, hbytes, number_be32]
  · rw [List.append_assoc] at hbefore
    refine hbefore.infix ?_
    rintro a ⟨w, hw, haddr⟩ ⟨w', hw', haddr'⟩
    have hin := hwithin w hw
    obtain hw' | hw' := List.mem_append.mp hw'
    · have hin' := hnext w' hw'
      have hlength : (be32 (next placed.stop)).length = 4 := rfl
      omega
    · have hin' := hcount w' hw'
      have hlength : (be16 body.entries).length = 2 := rfl
      omega

end Exif

end Tarako
