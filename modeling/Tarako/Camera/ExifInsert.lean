import Tarako.Camera.ExifRanges

/-!
# Putting the EXIF segment into a JPEG

`JPEG_AddExifToMemory` and `JPEG_AddExifToFile` of `exif_writer.c`. Both build the segment in
a temporary buffer. In memory it then goes before the source, into the same buffer: a new SOI
stands before it, and it ends with the last byte of the source's own. In a file the SOI, the
segment and the source without its SOI are written one behind the other. Addresses have 32
bits, and all buffers are in one memory.
-/

namespace Tarako

namespace Exif

open Prog

variable {α β : Type} {n : ℕ} {s : Context}

/-! ## What a call stores

Whether a call succeeds or fails, it stores into its buffer only. -/

/-- The position and the stores are in a buffer of `n` bytes. -/
structure Context.Inside (n : ℕ) (s : Context) : Prop where
  size : s.size = n
  pos : s.pos ≤ n
  stores : ∀ w ∈ s.stores, w.addr < n

/-- A write that stays in a buffer of `n` bytes. -/
def Confined (n : ℕ) (m : W α) : Prop :=
  Maintains (Context.Inside n) (fun e => ∀ w ∈ e.stores, w.addr < n) m

theorem Context.Inside.put (hs : s.Inside n) {part : Part} {bytes : List UInt8}
    (hroom : s.pos + bytes.length ≤ n) : (s.put part bytes).Inside n := by
  refine ⟨hs.size, hroom, fun w hw => ?_⟩
  obtain hw | hw := List.mem_append.mp hw
  · exact hs.stores w hw
  · exact Nat.lt_of_lt_of_le (Store.within_block part s.pos bytes w hw).2 hroom

theorem confined_pure (a : α) : Confined n (pure a : W α) := maintains_pure a

theorem confined_bind {m : W α} {f : α → W β} (hm : Confined n m) (hf : ∀ a, Confined n (f a)) :
    Confined n (m >>= f) := maintains_bind hm hf

theorem confined_fail : Confined n (fail : W α) := fun _ hs => hs.stores

theorem confined_setWritePos (offset : ℕ) : Confined n (setWritePos offset) := by
  intro s hs
  rw [wp_setWritePos]
  exact ⟨fun _ => hs, fun hle => ⟨hs.size, hs.size ▸ hle, hs.stores⟩⟩

theorem confined_getWritePos : Confined n getWritePos := fun _ hs => hs

theorem confined_must {write : W Bool} (h : Confined n write) : Confined n (must write) :=
  confined_bind h fun _ => maintains_ite (confined_pure _) confined_fail

theorem confined_writeC (part : Part) (c : UInt8) : Confined n (writeC part c) := by
  intro s hs
  rw [writeC, wp_bind, wp_get, wp_ite, wp_bind]
  exact ⟨fun _ => hs, fun hroom => hs.put (hs.size ▸ Nat.not_lt.mp hroom)⟩

theorem confined_writeL (part : Part) (l : ℕ) : Confined n (writeL part l) := by
  intro s hs
  rw [writeL, wp_bind, wp_get, wp_ite, wp_bind]
  exact ⟨fun _ => hs, fun hroom => hs.put (hs.size ▸ Nat.not_lt.mp hroom)⟩

theorem confined_ite {write write' : W Bool} (h : Confined n write) (h' : Confined n write') :
    Confined n (do if ← write then write' else pure false) :=
  confined_bind h fun _ => maintains_ite h' (confined_pure _)

theorem confined_writeW (part : Part) (w : ℕ) : Confined n (writeW part w) :=
  confined_ite (confined_writeC part _) (confined_writeC part _)

theorem confined_writeEach {write : ℕ → W Bool} (h : ∀ i, Confined n (write i)) (k i : ℕ) :
    Confined n (writeEach write k i) := by
  induction k generalizing i with
  | zero => exact confined_pure true
  | succ k ih => exact confined_ite (h i) (ih (i + 1))

theorem confined_writeBlock (part : Part) (block : List UInt8) :
    Confined n (writeBlock part block) :=
  confined_writeEach (fun _ => confined_writeC part _) _ _

theorem confined_writeIFD (d : Dir) (ifd : IfdInfo) : Confined n (writeIFD d ifd) :=
  confined_bind (confined_must (confined_writeW _ _)) fun _ =>
    confined_bind (confined_must (confined_writeW _ _)) fun _ =>
      confined_bind (confined_must (confined_writeL _ _)) fun _ =>
        confined_must (confined_writeL _ _)

theorem confined_writeRecord (d : Dir) (ifd : IfdInfo) (outside : Bool) {write : ℕ → W Bool}
    (h : ∀ i, Confined n (write i)) (strict : Bool) (o v : ℕ) :
    Confined n (writeRecord d ifd outside write strict o v) :=
  confined_bind (confined_must (confined_setWritePos o)) fun _ =>
    confined_bind (confined_writeIFD d ifd) fun _ => confined_bind confined_getWritePos fun _ =>
      maintains_ite
        (confined_bind (confined_must (confined_setWritePos v)) fun _ =>
          confined_bind (confined_writeEach h _ _) fun _ => maintains_ite
            (confined_bind confined_getWritePos fun _ => confined_pure _)
            (maintains_ite confined_fail (confined_pure _)))
        (confined_pure _)

theorem confined_put (w : Writer) (d : Dir) (ifd : IfdInfo) (i : ℕ) :
    Confined n (w.put d ifd i) := by
  cases w with
  | rational => exact confined_ite (confined_writeL _ _) (confined_writeL _ _)
  | long => exact confined_writeL _ _
  | short => exact confined_writeW _ _
  | byte => exact confined_writeC _ _

theorem confined_write (w : Writer) (d : Dir) (ifd : IfdInfo) (o v : ℕ) :
    Confined n (w.write d ifd o v) := by
  rw [Writer.write_eq]
  exact confined_writeRecord d _ _ (confined_put w d ifd) _ o v

theorem confined_writeFields (d : Dir) (blocks : List Block) (c : Cursor) :
    Confined n (writeFields d blocks c) := by
  induction blocks generalizing c with
  | nil => exact confined_pure c
  | cons b blocks ih =>
      have hfield : Confined n (writeField d b c) :=
        maintains_ite (confined_bind (confined_write _ d _ _ _) fun _ => confined_pure _)
          (confined_pure c)
      exact confined_bind hfield ih

theorem confined_writeDirectory {d : Dir} {reserved : ℕ} {body : Cursor → W Cursor}
    (h : ∀ c, Confined n (body c)) (next : ℕ → ℕ) (b : ℕ) :
    Confined n (writeDirectory d reserved body next b) :=
  confined_bind (confined_setWritePos _) fun _ =>
    confined_bind (confined_must (confined_writeW _ _)) fun _ =>
      confined_bind confined_getWritePos fun _ => confined_bind (h _) fun _ =>
        confined_bind (confined_setWritePos _) fun _ =>
          confined_bind (confined_must (confined_writeL _ _)) fun _ =>
            confined_bind (confined_setWritePos _) fun _ =>
              confined_bind (confined_must (confined_writeW _ _)) fun _ => confined_pure _

theorem confined_writeOptional (d : Dir) (tag : IfdTag) {write : α → ℕ → W ℕ}
    (h : ∀ info b, Confined n (write info b)) (info : Option α) (c : Cursor) :
    Confined n (writeOptional d tag write info c) := by
  cases info with
  | none => exact confined_pure c
  | some info =>
      exact confined_bind (confined_write .long d _ _ _) fun _ =>
        confined_bind (h info _) fun _ => confined_pure _

theorem confined_writeExifSpecInfo (inter : Option InteroperabilityInfo) (spec : SpecificInfo)
    (b : ℕ) : Confined n (writeExifSpecInfo inter spec b) := by
  have hinter : ∀ inter b, Confined n (writeExifInteroperabilityInfo inter b) := fun inter =>
    confined_writeDirectory (confined_writeFields _ _) _
  exact confined_writeDirectory (fun c => confined_bind (confined_writeFields _ _ c) fun _ =>
    confined_bind (confined_writeOptional _ _ hinter inter _) (confined_writeFields _ _)) _ b

theorem confined_writeThumbnail (d : Dir) (thumbnail : List UInt8) (o : ℕ) (c : Cursor) :
    Confined n (writeThumbnail d thumbnail o c) :=
  maintains_ite (confined_pure c)
    (confined_bind (confined_setWritePos _) fun _ =>
      confined_bind (confined_must (confined_writeBlock _ _)) fun _ =>
        confined_bind confined_getWritePos fun _ => confined_bind (confined_setWritePos o) fun _ =>
          confined_bind (confined_write .long d _ _ _) fun _ => confined_pure _)

theorem confined_writeExifIFD (d : Dir) (primary : PrimaryInfo) (spec : Option SpecificInfo)
    (gps : Option GpsInfo) (inter : Option InteroperabilityInfo) (thumbnail : List UInt8)
    (isNextIfdExist : Bool) (b : ℕ) :
    Confined n (writeExifIFD d primary spec gps inter thumbnail isNextIfdExist b) := by
  have hgps : ∀ gps b, Confined n (writeExifGPSInfo gps b) := fun gps =>
    confined_writeDirectory (confined_writeFields _ _) _
  refine confined_writeDirectory (fun c => ?_) _ b
  exact confined_bind (confined_writeFields _ _ c) fun _ =>
    confined_bind (confined_writeFields _ _ _) fun _ =>
      confined_bind (confined_writeFields _ _ _) fun _ =>
        confined_bind (confined_writeOptional _ _ (confined_writeExifSpecInfo inter) spec _)
          fun _ => confined_bind (confined_writeOptional _ _ hgps gps _)
            fun _ => confined_writeThumbnail _ _ _ _

theorem confined_writeSegment (info : ExifInfo) (thumbnail : List UInt8) :
    Confined n (writeSegment info thumbnail) := by
  have hifh : Confined n (writeIFH IFH) :=
    confined_bind (confined_setWritePos _) fun _ =>
      confined_bind (confined_must (confined_writeW _ _)) fun _ =>
        confined_bind (confined_must (confined_writeW _ _)) fun _ =>
          confined_bind (confined_must (confined_writeL _ _)) fun _ => confined_getWritePos
  have hifds : Confined n (writeIFDs info thumbnail) :=
    confined_bind hifh fun _ => confined_bind (confined_writeExifIFD _ _ _ _ _ _ _ _) fun _ =>
      maintains_ite (confined_pure _) (confined_writeExifIFD _ _ _ _ _ _ _ _)
  have hheader : ∀ length, Confined n (writeAPP1Header 0 length) := fun length =>
    confined_bind (confined_setWritePos _) fun _ =>
      confined_bind (confined_must (confined_writeC _ _)) fun _ =>
        confined_bind (confined_must (confined_writeC _ _)) fun _ =>
          confined_bind (confined_must (confined_writeW _ _)) fun _ =>
            confined_must (confined_writeBlock _ _)
  exact confined_bind hifds fun _ => confined_bind (hheader _) fun _ => confined_pure _

def storedBy : Except Failure Output → List (Store Part)
  | .error e => e.stores
  | .ok out => out.stores

theorem storedBy_writeAPP1 (target : Option ℕ) (info : Option ExifInfo)
    (thumbnail : List UInt8) :
    ∀ w ∈ storedBy (writeAPP1 target info thumbnail), w.addr < target.getD 0 := by
  cases info with
  | none => exact fun w hw => absurd hw List.not_mem_nil
  | some info =>
      cases target with
      | none => exact fun w hw => absurd hw List.not_mem_nil
      | some size =>
          rw [writeAPP1, Option.getD_some]
          by_cases hsize : size < 10
          · rw [if_pos hsize]
            exact fun w hw => absurd hw List.not_mem_nil
          · have hrun := confined_writeSegment (n := size) info thumbnail ⟨size, 0, []⟩
              ⟨rfl, Nat.zero_le _, fun w hw => absurd hw List.not_mem_nil⟩
            rw [wp] at hrun
            rw [if_neg hsize]
            cases hsegment : writeSegment info thumbnail ⟨size, 0, []⟩ with
            | error e =>
                rw [hsegment] at hrun
                exact hrun
            | ok p =>
                rw [hsegment] at hrun
                exact hrun.stores

/-! ## The two modes -/

/-- `JINF_WEXIF_IN_PARAM_T`, of the fields that the two modes read. The thumbnail and what
`exif_info_ptr` points at are given by their contents. -/
structure WexifIn where
  exifInfo : Option ExifInfo
  srcJpegBufPtr : UInt32
  srcJpegSize : UInt32
  thumbnail : List UInt8
  tempBufPtr : UInt32
  tempBufSize : UInt32
  targetBufPtr : UInt32

/-- `JINF_WEXIF_OUT_PARAM_T`. -/
structure WexifOut where
  outputBufPtr : UInt32
  outputSize : UInt32

def M_MARKER : UInt8 := 0xff

def M_SOI : UInt8 := 0xd8

namespace WexifIn

/-- The call of `Jpeg_WriteAPP1`, with the temporary buffer. -/
def writeAPP1 (p : WexifIn) : Except Failure Output :=
  Exif.writeAPP1 (if p.tempBufPtr = 0 then none else some p.tempBufSize.toNat) p.exifInfo
    p.thumbnail

def afterAPP1 (p : WexifIn) (m : Memory) : Memory :=
  Store.image (Store.moved p.tempBufPtr.toNat (storedBy p.writeAPP1)) m

end WexifIn

/-- `JPEG_AddExifToMemory`, with the memory behind it. -/
def addExifToMemory (p : WexifIn) (m : Memory) : Except Ret WexifOut × Memory :=
  match p.writeAPP1 with
  | .error e => (.error e.ret, p.afterAPP1 m)
  | .ok out =>
      let app1Size := UInt32.ofNat out.app1Size
      let freeBufSize := p.srcJpegBufPtr - p.targetBufPtr
      if freeBufSize < app1Size then (.error .memoryNotEnough, p.afterAPP1 m)
      else
        let target := p.srcJpegBufPtr - app1Size
        let m : Memory := Function.update (p.afterAPP1 m) target.toNat M_MARKER
        let m : Memory := Function.update m (target + 1).toNat M_SOI
        -- the `memcpy`
        let m := m.copy (target + 2).toNat (m.shift p.tempBufPtr.toNat) app1Size.toNat
        (.ok ⟨target, app1Size + p.srcJpegSize⟩, m)

/-- A file, by its bytes and its size. -/
structure File where
  bytes : Memory
  size : ℕ

def File.write (f : File) (buf : Memory) (offset size : ℕ) : File :=
  ⟨f.bytes.copy offset buf size, max f.size (offset + size)⟩

/-- `JINF_WRITE_FILE_FUNC`: from what the buffer's pointer points at, the offset and the number
of bytes, whether it has succeeded and the number of bytes written. -/
abbrev WriteFile := Memory → UInt32 → UInt32 → StateM File (Bool × UInt32)

/-- The callback writes everything. -/
def WriteFile.WritesAll (func : WriteFile) : Prop :=
  ∀ buf offset size f, (func buf offset size).run f =
    ((true, size), f.write buf offset.toNat size.toNat)

def writeFile (func : WriteFile) (buf : Memory) (offset size : UInt32) :
    ExceptT Ret (StateM File) UInt32 := do
  let (done, actual) ← ExceptT.lift (func buf offset size)
  if !done || size != actual then throw .failed else pure actual

def addExifToFile (func : WriteFile) (p : WexifIn) (m : Memory) :
    ExceptT Ret (StateM File) Unit := do
  match p.writeAPP1 with
  | .error e => throw e.ret
  | .ok out =>
      let m := p.afterAPP1 m
      let app1Size := UInt32.ofNat out.app1Size
      let soiMarker : Memory := fun i => [M_MARKER, M_SOI].getD i 0
      let actual ← writeFile func soiMarker 0 2
      let writeOffset := 0 + actual
      let actual ← writeFile func (m.shift p.tempBufPtr.toNat) writeOffset app1Size
      let writeOffset := writeOffset + actual
      let _ ← writeFile func (m.shift (p.srcJpegBufPtr + 2).toNat) writeOffset (p.srcJpegSize - 2)

/-! ## What both modes leave -/

/-- SOI, a segment of `n` bytes, and the source without its first two bytes. -/
structure Inserted (app1 : Memory) (n : ℕ) (source : Memory) (size : ℕ) (result : Memory) :
    Prop where
  marker : result 0 = M_MARKER
  soi : result 1 = M_SOI
  app1 : ∀ i < n, result (2 + i) = app1 i
  rest : ∀ i, 2 ≤ i → i < size → result (n + i) = source i

theorem Inserted.eq {app1 source result result' : Memory} {size : ℕ}
    (h : Inserted app1 n source size result) (h' : Inserted app1 n source size result') {i : ℕ}
    (hi : i < n + size) : result i = result' i := by
  by_cases hsoi : i < 2
  · obtain rfl | rfl : i = 0 ∨ i = 1 := by omega
    · exact h.marker.trans h'.marker.symm
    · exact h.soi.trans h'.soi.symm
  obtain ⟨j, rfl⟩ := Nat.exists_eq_add_of_le (Nat.not_lt.mp hsoi)
  by_cases happ1 : j < n
  · exact (h.app1 j happ1).trans (h'.app1 j happ1).symm
  · have hsum : 2 + j = n + (2 + j - n) := by omega
    have hle : 2 ≤ 2 + j - n := by omega
    have hlt : 2 + j - n < size := by omega
    rw [hsum]
    exact (h.rest _ hle hlt).trans (h'.rest _ hle hlt).symm

/-- A SOI and a segment of the memory, stored before what begins at `target + n` so that the
segment ends two bytes behind. -/
theorem inserted_copy (m : Memory) (target temp size : ℕ) (hn : 2 ≤ n)
    (htemp : ∀ i < n, temp + i ≠ target ∧ temp + i ≠ target + 1) :
    let soi : Memory := Function.update (Function.update m target M_MARKER) (target + 1) M_SOI
    Inserted (m.shift temp) n (m.shift (target + n)) size
      ((soi.copy (target + 2) (soi.shift temp) n).shift target) := by
  intro soi
  have hsoi : ∀ a, a ≠ target → a ≠ target + 1 → soi a = m a := fun a h h' =>
    (Function.update_of_ne h' _ _).trans (Function.update_of_ne h _ _)
  have hbefore : ∀ i < 2, soi.copy (target + 2) (soi.shift temp) n (target + i) =
      soi (target + i) := fun i hi => Memory.copy_apply_of_lt (Nat.add_lt_add_left hi _)
  refine ⟨?_, ?_, fun i hi => ?_, fun i hle _ => ?_⟩
  · refine (hbefore 0 (by decide)).trans ?_
    exact (Function.update_of_ne (Nat.ne_of_lt (Nat.lt_succ_self _)) _ _).trans
      (Function.update_self _ _ _)
  · exact (hbefore 1 (by decide)).trans (Function.update_self _ _ _)
  · rw [Memory.shift_apply, Memory.copy_apply_of_mem (by omega) (by omega), Memory.shift_apply,
      show target + (2 + i) - (target + 2) = i by omega]
    exact hsoi _ (htemp i hi).1 (htemp i hi).2
  · rw [Memory.shift_apply, Memory.copy_apply_of_le (by omega), Memory.shift_apply,
      Nat.add_assoc]
    exact hsoi _ (by omega) (by omega)

/-! ### Sizes -/

theorem two_le_app1Size (out : Output) : 2 ≤ out.app1Size := Nat.le_add_left 2 _

theorem app1Size_lt (out : Output) : out.app1Size < 65538 := by
  have hlt : app1Length out.endOffset < 65536 := Nat.mod_lt _ (by decide)
  change app1Length out.endOffset + 2 < 65538
  omega

theorem toNat_app1Size (out : Output) : (UInt32.ofNat out.app1Size).toNat = out.app1Size := by
  have hlt := app1Size_lt out
  rw [UInt32.toNat_ofNat']
  omega

theorem toNat_add_of_lt {x y : UInt32} (h : x.toNat + y.toNat < 2 ^ 32) :
    (x + y).toNat = x.toNat + y.toNat := by
  rw [UInt32.toNat_add]
  exact Nat.mod_eq_of_lt h

namespace WexifIn

/-- How far the temporary buffer is written or read. -/
def extent (p : WexifIn) : ℕ :=
  match p.writeAPP1 with
  | .error _ => p.tempBufSize.toNat
  | .ok out => max p.tempBufSize.toNat out.app1Size

/-- The source ends in the address space, and the temporary buffer is apart from it. -/
structure SourceApart (p : WexifIn) : Prop where
  inside : p.srcJpegBufPtr.toNat + p.srcJpegSize.toNat < 2 ^ 32
  source : ∀ i j, i < p.extent → j < p.srcJpegSize.toNat →
    p.tempBufPtr.toNat + i ≠ p.srcJpegBufPtr.toNat + j

/-- The temporary buffer is apart from the free space before the source as well. -/
structure Apart (p : WexifIn) : Prop extends p.SourceApart where
  free : ∀ i a, i < p.extent → p.targetBufPtr.toNat ≤ a → a < p.srcJpegBufPtr.toNat →
    p.tempBufPtr.toNat + i ≠ a

variable {p : WexifIn} {m : Memory}

theorem tempBufSize_le_extent (p : WexifIn) : p.tempBufSize.toNat ≤ p.extent := by
  rw [extent]
  split
  · exact Nat.le_refl _
  · exact Nat.le_max_left _ _

theorem app1Size_le_extent {out : Output} (hrun : p.writeAPP1 = .ok out) :
    out.app1Size ≤ p.extent := by
  rw [extent, hrun]
  exact Nat.le_max_right _ _

theorem afterAPP1_source (hp : p.SourceApart) {j : ℕ} (hj : j < p.srcJpegSize.toNat) :
    p.afterAPP1 m (p.srcJpegBufPtr.toNat + j) = m (p.srcJpegBufPtr.toNat + j) := by
  refine Store.image_of_not_covers fun hcovers => ?_
  obtain ⟨w, hw, haddr⟩ := Store.covers_moved.mp hcovers
  have hlt := storedBy_writeAPP1 _ _ _ w hw
  have hsize : (if p.tempBufPtr = 0 then none else some p.tempBufSize.toNat).getD 0 ≤
      p.tempBufSize.toNat := by
    split
    · exact Nat.zero_le _
    · exact Nat.le_refl _
  have hextent := p.tempBufSize_le_extent
  exact hp.source w.addr j (by omega) hj haddr

theorem source_of_error (hp : p.SourceApart) {e : Ret} {m' : Memory}
    (h : addExifToMemory p m = (.error e, m')) {j : ℕ} (hj : j < p.srcJpegSize.toNat) :
    m' (p.srcJpegBufPtr.toNat + j) = m (p.srcJpegBufPtr.toNat + j) := by
  have hm : m' = p.afterAPP1 m := by
    rw [addExifToMemory] at h
    cases hrun : p.writeAPP1 with
    | error f =>
        rw [hrun] at h
        exact (congrArg Prod.snd h).symm
    | ok out =>
        rw [hrun] at h
        simp only at h
        split at h
        · exact (congrArg Prod.snd h).symm
        · exact absurd (congrArg Prod.fst h) nofun
  rw [hm]
  exact afterAPP1_source hp hj

theorem toNat_target (p : WexifIn) (out : Output) (hle : out.app1Size ≤ p.srcJpegBufPtr.toNat) :
    (p.srcJpegBufPtr - UInt32.ofNat out.app1Size).toNat =
      p.srcJpegBufPtr.toNat - out.app1Size := by
  have hsize := toNat_app1Size out
  rw [UInt32.toNat_sub_of_le, hsize]
  rw [UInt32.le_iff_toNat_le, hsize]
  exact hle

theorem addExifToMemory_eq {out : Output} (hrun : p.writeAPP1 = .ok out)
    (hfree : p.targetBufPtr.toNat + out.app1Size ≤ p.srcJpegBufPtr.toNat) :
    addExifToMemory p m =
      (.ok ⟨p.srcJpegBufPtr - UInt32.ofNat out.app1Size,
          UInt32.ofNat out.app1Size + p.srcJpegSize⟩,
        let target := p.srcJpegBufPtr.toNat - out.app1Size
        let m : Memory := Function.update (Function.update (p.afterAPP1 m) target M_MARKER)
          (target + 1) M_SOI
        m.copy (target + 2) (m.shift p.tempBufPtr.toNat) out.app1Size) := by
  have hroom : ¬ p.srcJpegBufPtr - p.targetBufPtr < UInt32.ofNat out.app1Size := by
    rw [UInt32.lt_iff_toNat_lt, toNat_app1Size, UInt32.toNat_sub_of_le]
    · omega
    · rw [UInt32.le_iff_toNat_le]
      omega
  have htwo := two_le_app1Size out
  have hlt := p.srcJpegBufPtr.toNat_lt
  have htarget := toNat_target p out (by omega)
  have hone : (p.srcJpegBufPtr - UInt32.ofNat out.app1Size + 1).toNat =
      p.srcJpegBufPtr.toNat - out.app1Size + 1 := by
    rw [toNat_add_of_lt, htarget]
    · rfl
    · rw [htarget, UInt32.toNat_one]
      omega
  have hbehind : (p.srcJpegBufPtr - UInt32.ofNat out.app1Size + 2).toNat =
      p.srcJpegBufPtr.toNat - out.app1Size + 2 := by
    rw [toNat_add_of_lt, htarget]
    · rfl
    · rw [htarget, show (2 : UInt32).toNat = 2 from rfl]
      omega
  rw [addExifToMemory, hrun]
  simp only [if_neg hroom, htarget, hone, hbehind, toNat_app1Size]

theorem inserted_memory (hp : p.Apart) {out : Output} (hrun : p.writeAPP1 = .ok out)
    (hfree : p.targetBufPtr.toNat + out.app1Size ≤ p.srcJpegBufPtr.toNat) :
    Inserted ((p.afterAPP1 m).shift p.tempBufPtr.toNat) out.app1Size
      (m.shift p.srcJpegBufPtr.toNat) p.srcJpegSize.toNat
      ((addExifToMemory p m).2.shift (p.srcJpegBufPtr.toNat - out.app1Size)) := by
  have htwo := two_le_app1Size out
  have hextent := app1Size_le_extent hrun
  have hcopy := inserted_copy (p.afterAPP1 m) (p.srcJpegBufPtr.toNat - out.app1Size)
    p.tempBufPtr.toNat p.srcJpegSize.toNat htwo fun i hi =>
      ⟨hp.free i _ (by omega) (by omega) (by omega), hp.free i _ (by omega) (by omega) (by omega)⟩
  rw [Nat.sub_add_cancel (by omega)] at hcopy
  rw [addExifToMemory_eq hrun hfree]
  refine ⟨hcopy.marker, hcopy.soi, hcopy.app1, fun i hle hlt => ?_⟩
  exact (hcopy.rest i hle hlt).trans (afterAPP1_source hp.toSourceApart hlt)

end WexifIn

theorem run_bind_of_run {m : ExceptT Ret (StateM File) α} {g : α → ExceptT Ret (StateM File) β}
    {a : α} {f f' : File} (h : m.run f = (.ok a, f')) : (m >>= g).run f = (g a).run f' := by
  rw [ExceptT.run_bind]
  change StateT.bind m.run _ f = _
  rw [StateT.bind, h]
  rfl

theorem writeFile_run {func : WriteFile} (hfunc : func.WritesAll) (buf : Memory)
    (offset size : UInt32) (f : File) : (writeFile func buf offset size).run f =
      (.ok size, f.write buf offset.toNat size.toNat) := by
  have hlift : (ExceptT.lift (func buf offset size) : ExceptT Ret (StateM File) _).run f =
      (.ok (true, size), f.write buf offset.toNat size.toNat) := by
    rw [ExceptT.run_lift]
    change StateT.map _ _ f = _
    rw [StateT.map]
    change ((fun p => (Except.ok p.1, p.2)) <$> (func buf offset size).run f) = _
    rw [hfunc]
    rfl
  rw [writeFile, run_bind_of_run hlift]
  have hall : ¬ (!true || size != size) = true := by simp
  exact congrFun (congrArg ExceptT.run (if_neg hall)) _

theorem addExifToFile_run {func : WriteFile} (hfunc : func.WritesAll) {p : WexifIn} {m : Memory}
    {out : Output} (hrun : p.writeAPP1 = .ok out) (f : File) :
    (addExifToFile func p m).run f =
      (.ok (), ((f.write (fun i => [M_MARKER, M_SOI].getD i 0) 0 2).write
        ((p.afterAPP1 m).shift p.tempBufPtr.toNat) 2 out.app1Size).write
          ((p.afterAPP1 m).shift (p.srcJpegBufPtr + 2).toNat) (2 + out.app1Size)
            (p.srcJpegSize - 2).toNat) := by
  have hbehind : (0 + 2 + UInt32.ofNat out.app1Size).toNat = 2 + out.app1Size := by
    have hlt := app1Size_lt out
    rw [toNat_add_of_lt, toNat_app1Size]
    · rfl
    · rw [toNat_app1Size, show ((0 : UInt32) + 2).toNat = 2 from rfl]
      omega
  rw [addExifToFile, hrun]
  change (writeFile func _ 0 2 >>= _).run f = _
  rw [run_bind_of_run (writeFile_run hfunc _ _ _ _), run_bind_of_run (writeFile_run hfunc _ _ _ _),
    run_bind_of_run (writeFile_run hfunc _ _ _ _), hbehind, toNat_app1Size]
  rfl

theorem inserted_write (f : File) (app1 source : Memory) (n size : ℕ) :
    Inserted app1 n source size
      (((f.write (fun i => [M_MARKER, M_SOI].getD i 0) 0 2).write app1 2 n).write
        (source.shift 2) (2 + n) (size - 2)).bytes := by
  have hsoi : ∀ i < 2, (((f.write (fun i => [M_MARKER, M_SOI].getD i 0) 0 2).write app1 2 n).write
      (source.shift 2) (2 + n) (size - 2)).bytes i = [M_MARKER, M_SOI].getD i 0 := by
    intro i hi
    have hwrite : f.bytes.copy 0 (fun i => [M_MARKER, M_SOI].getD i 0) 2 i =
        [M_MARKER, M_SOI].getD (i - 0) 0 :=
      Memory.copy_apply_of_mem (Nat.zero_le i) (by omega)
    exact (Memory.copy_apply_of_lt (by omega)).trans ((Memory.copy_apply_of_lt hi).trans hwrite)
  refine ⟨hsoi 0 (by decide), hsoi 1 (by decide), fun i hi => ?_, fun i hle hlt => ?_⟩
  · refine (Memory.copy_apply_of_lt (by omega)).trans ?_
    refine (Memory.copy_apply_of_mem (by omega) (by omega)).trans ?_
    rw [Nat.add_sub_cancel_left]
  · refine (Memory.copy_apply_of_mem (by omega) (by omega)).trans ?_
    rw [Memory.shift_apply]
    exact congrArg source (by omega)

theorem inserted_file {func : WriteFile} (hfunc : func.WritesAll) {p : WexifIn}
    (hp : p.SourceApart) {m : Memory} {out : Output} (hrun : p.writeAPP1 = .ok out)
    (htwo : 2 ≤ p.srcJpegSize.toNat) (f : File) : ∃ f', (addExifToFile func p m).run f = (.ok (), f') ∧
      f'.size = max f.size (out.app1Size + p.srcJpegSize.toNat) ∧
      Inserted ((p.afterAPP1 m).shift p.tempBufPtr.toNat) out.app1Size
        (m.shift p.srcJpegBufPtr.toNat) p.srcJpegSize.toNat f'.bytes := by
  have hinside := hp.inside
  have hbegin : (p.srcJpegBufPtr + 2).toNat = p.srcJpegBufPtr.toNat + 2 :=
    toNat_add_of_lt (show p.srcJpegBufPtr.toNat + 2 < 2 ^ 32 by omega)
  have hsize : (p.srcJpegSize - 2).toNat = p.srcJpegSize.toNat - 2 :=
    UInt32.toNat_sub_of_le _ _ (UInt32.le_iff_toNat_le.mpr htwo)
  have hsource : (p.afterAPP1 m).shift (p.srcJpegBufPtr.toNat + 2) =
      ((p.afterAPP1 m).shift p.srcJpegBufPtr.toNat).shift 2 := by
    funext i
    exact congrArg (p.afterAPP1 m) (Nat.add_assoc _ _ _)
  refine ⟨_, addExifToFile_run hfunc hrun f, ?_, ?_⟩
  · change max (max (max f.size (0 + 2)) (2 + out.app1Size))
      (2 + out.app1Size + (p.srcJpegSize - 2).toNat) = _
    omega
  · rw [hbegin, hsize, hsource]
    have hwrite := inserted_write f ((p.afterAPP1 m).shift p.tempBufPtr.toNat)
      ((p.afterAPP1 m).shift p.srcJpegBufPtr.toNat) out.app1Size p.srcJpegSize.toNat
    refine ⟨hwrite.marker, hwrite.soi, hwrite.app1, fun i hle hlt => ?_⟩
    exact (hwrite.rest i hle hlt).trans (WexifIn.afterAPP1_source hp hlt)

/-- Where `Jpeg_WriteAPP1` succeeds and there is room before the source, both modes succeed,
and the bytes that the memory mode reports are those of the file: SOI, the segment and the
source without its SOI. Where the memory mode fails, the source is as before. -/
theorem addExif_modes_agree (p : WexifIn) (hp : p.Apart) (m : Memory) :
    (∀ (func : WriteFile) (f : File) (out : Output), func.WritesAll → p.writeAPP1 = .ok out →
      2 ≤ p.srcJpegSize.toNat → p.targetBufPtr.toNat + out.app1Size ≤ p.srcJpegBufPtr.toNat →
        ∃ o m' f', addExifToMemory p m = (.ok o, m') ∧
          (addExifToFile func p m).run f = (.ok (), f') ∧
          o.outputSize.toNat = out.app1Size + p.srcJpegSize.toNat ∧
          f'.size = max f.size o.outputSize.toNat ∧
          Inserted ((p.afterAPP1 m).shift p.tempBufPtr.toNat) out.app1Size
            (m.shift p.srcJpegBufPtr.toNat) p.srcJpegSize.toNat f'.bytes ∧
          ∀ i < o.outputSize.toNat, m' (o.outputBufPtr.toNat + i) = f'.bytes i) ∧
      ∀ e m', addExifToMemory p m = (.error e, m') → ∀ j < p.srcJpegSize.toNat,
        m' (p.srcJpegBufPtr.toNat + j) = m (p.srcJpegBufPtr.toNat + j) := by
  refine ⟨fun func f out hfunc hrun htwo hfree => ?_, fun e m' herror j hj =>
    WexifIn.source_of_error hp.toSourceApart herror hj⟩
  have hinside := hp.inside
  have hmemory := WexifIn.inserted_memory (m := m) hp hrun hfree
  obtain ⟨f', hfile, hsize, hinserted⟩ :=
    inserted_file hfunc hp.toSourceApart (m := m) hrun htwo f
  have houtput : (UInt32.ofNat out.app1Size + p.srcJpegSize).toNat =
      out.app1Size + p.srcJpegSize.toNat := by
    rw [toNat_add_of_lt, toNat_app1Size]
    rw [toNat_app1Size]
    omega
  have hok := congrArg Prod.fst (WexifIn.addExifToMemory_eq (m := m) hrun hfree)
  refine ⟨_, (addExifToMemory p m).2, f', Prod.ext hok rfl, hfile, houtput, houtput ▸ hsize,
    hinserted, fun i hi => ?_⟩
  rw [WexifIn.toNat_target p out (by omega)]
  exact hmemory.eq hinserted (houtput ▸ hi)

/-- A source of four bytes, with as much room before it as the segment takes. -/
def plainWexif : WexifIn :=
  ⟨some plainInfo, 0x2148, 4, [], 0x1000, 400, 0x2000⟩

def plainSource : Memory := fun a =>
  if a = 0x2148 then M_MARKER else if a = 0x2149 then M_SOI else 0

theorem apart_plainWexif : ∃ out, plainWexif.writeAPP1 = .ok out ∧ out.app1Size = 328 ∧
    plainWexif.Apart := by
  have hsize : plainWexif.writeAPP1.toOption.map Output.app1Size = some 328 := by decide +kernel
  cases hrun : plainWexif.writeAPP1 with
  | error e =>
      rw [hrun] at hsize
      cases hsize
  | ok out =>
      rw [hrun] at hsize
      have hsize' : out.app1Size = 328 := Option.some.inj hsize
      have hextent : plainWexif.extent = 400 := by
        rw [WexifIn.extent, hrun]
        exact (congrArg (max 400) hsize').trans rfl
      refine ⟨out, rfl, hsize', ⟨by decide, fun i j hi _ => ?_⟩, fun i a hi hle _ => ?_⟩
      · rw [hextent] at hi
        change 0x1000 + i ≠ 0x2148 + j
        omega
      · rw [hextent] at hi
        change 0x2000 ≤ a at hle
        change 0x1000 + i ≠ a
        omega

theorem addExif_modes_agree_plainWexif :
    ∃ o m' f', addExifToMemory plainWexif plainSource = (.ok o, m') ∧
      (addExifToFile (fun buf offset size f => ((true, size), f.write buf offset.toNat size.toNat))
        plainWexif plainSource).run ⟨fun _ => 0, 0⟩ = (.ok (), f') ∧
      o.outputSize.toNat = 332 ∧ ∀ i < 332, m' (o.outputBufPtr.toNat + i) = f'.bytes i := by
  obtain ⟨out, hrun, hsize, hapart⟩ := apart_plainWexif
  have hfree : plainWexif.targetBufPtr.toNat + out.app1Size ≤ plainWexif.srcJpegBufPtr.toNat := by
    rw [hsize]
    decide
  obtain ⟨o, m', f', hmemory, hfile, houtput, -, -, hagree⟩ :=
    (addExif_modes_agree plainWexif hapart plainSource).1
      (fun buf offset size f => ((true, size), f.write buf offset.toNat size.toNat))
      ⟨fun _ => 0, 0⟩ out (fun _ _ _ _ => rfl) hrun (by decide) hfree
  have houtput' : o.outputSize.toNat = 332 := by
    rw [houtput, hsize]
    rfl
  exact ⟨o, m', f', hmemory, hfile, houtput', fun i hi => hagree i (houtput' ▸ hi)⟩

end Exif

end Tarako
