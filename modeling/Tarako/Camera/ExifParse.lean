import Tarako.Camera.ExifInsert
import Tarako.Camera.JpegChunks

/-!
# A picture with EXIF data is read as the picture

`JPEG_AddExifToMemory` and `JPEG_AddExifToFile` put a segment behind the SOI of a picture.
`addExif_parse` says that `ParseHead` comes to the same end with the segment as without it, and
with the same decoder: the header that `Jpeg_WriteAPP1` writes last makes the parser skip
exactly what has been put in.
-/

namespace Tarako

/-! ## The parser passes over a segment -/

namespace JpegParse

open Prog

variable {c : State} {hi lo : UInt8} {l : List UInt8}

theorem consumes_skipVariable (h : word hi lo = l.length + 2) :
    Consumes src skipVariable ([hi, lo] ++ l) c () c := by
  have hskip : Consumes src (skipBytes (word hi lo - 2)) l c () c := by
    rw [h, Nat.add_sub_cancel]
    exact consumes_skipBytes l
  exact consumes_bind (consumes_getShortWord hi lo)
    (consumes_stay (consumes_check _ (by omega)) hskip)

theorem consumes_app1 (h : word hi lo = l.length + 2) :
    Consumes src (tablesTurn ()) ([0xFF, 0xe1] ++ ([hi, lo] ++ l)) c (.inl ()) c :=
  consumes_segment (by decide) (by decide) (h := .skipped) (by decide) (by decide)
    (consumes_skipVariable h)

theorem processTables_of_turn {s t : State} (h : Yields (tablesTurn ()) s (.inl ()) t) :
    processTables s = processTables t := by
  have hlt : t.bytes.length < s.bytes.length := tablesTurn_lt (x := ((), s)) (y := ((), t)) h
  have hfirst : processTables s = loop tablesTurn .failed s.bytes.length () t :=
    loop_of_turn (n := s.bytes.length) (t := ()) h .failed
  rw [hfirst]
  exact loop_eq_of_lt (w := fun x : Unit × State => x.2.bytes.length) (fun _ _ => tablesTurn_lt)
    .failed hlt (Nat.lt_succ_self _)

theorem sameBytes_of_rest {s t : State} (hbytes : s.bytes = t.bytes)
    (hrest : src.rest s = src.rest t) : SameBytes s t where
  bytes := hbytes
  pool := show (src.rest s).pool = (src.rest t).pool by rw [hrest]
  codec := show (src.rest s).codec = (src.rest t).codec by rw [hrest]
  input := show (src.rest s).input = (src.rest t).input by rw [hrest]

theorem parseHead_app1 (h : word hi lo = l.length + 2) {s t : State} {r : List UInt8}
    (hs : s.bytes = [0xFF, M_SOI] ++ r)
    (ht : t.bytes = [0xFF, M_SOI] ++ (([0xFF, 0xe1] ++ ([hi, lo] ++ l)) ++ r))
    (hrest : src.rest s = src.rest t) : Alike SameBytes (parseHead s) (parseHead t) := by
  obtain ⟨u, hu, hubytes, hurest⟩ := consumes_findSOI s r hs hrest
  obtain ⟨v, hv, hvbytes, hvrest⟩ := consumes_findSOI t _ ht rfl
  obtain ⟨w, hw, hwbytes, hwrest⟩ := consumes_app1 h v r hvbytes hvrest
  have hskipped : processTables v = processTables w := processTables_of_turn hw
  have hsame : SameBytes u w :=
    sameBytes_of_rest (hubytes.trans hwbytes.symm) (hurest.trans hwrest.symm)
  have hbehind : parseHead t = (processTables >>= afterTables) w := by
    have hrun : parseHead t = (processTables >>= afterTables) v := bind_apply_of_yields hv
    rw [hrun]
    change (processTables v >>= fun p => afterTables p.1 p.2) = _
    rw [hskipped]
    rfl
  have hplain : parseHead s = (processTables >>= afterTables) u := bind_apply_of_yields hu
  rw [hplain, hbehind]
  exact respects_bind respects_processTables (fun _ => respects_afterTables _) u w hsame

/-- The decoder comes to the same end on these bytes, however they are delivered. -/
def SameHead (l l' : List UInt8) : Prop :=
  ∀ (stream stream' : Stream) (poolSize : ℕ) (asserts : Bool), stream.read = stream'.read →
    stream.bytes = l → stream'.bytes = l' →
      Alike SameBytes (parseHead (start stream poolSize asserts))
        (parseHead (start stream' poolSize asserts))

theorem sameHead_app1 (h : word hi lo = l.length + 2) (r : List UInt8) :
    SameHead ([0xFF, M_SOI] ++ r) ([0xFF, M_SOI] ++ (([0xFF, 0xe1] ++ ([hi, lo] ++ l)) ++ r)) := by
  intro stream stream' poolSize asserts hread hbytes hbytes'
  refine parseHead_app1 h hbytes hbytes' ?_
  change State.mk _ (Pool.mk poolSize (if stream.read then 3 * 1024 else 0) asserts) _ _ = _
  rw [hread]
  rfl

end JpegParse

/-! ## The segment that is put in -/

namespace Exif

open Prog JpegParse

theorem stores_writeAPP1 {target : Option ℕ} {exifInfo : Option ExifInfo}
    {thumbnail : List UInt8} {out : Output} (h : writeAPP1 target exifInfo thumbnail = .ok out) :
    ∃ l, out.stores = l ++ Store.block .header 0 (headerBytes (app1Length out.endOffset)) := by
  cases exifInfo with
  | none => cases h
  | some info =>
      cases target with
      | none => cases h
      | some size =>
          by_cases hsize : size < 10
          · rw [writeAPP1, if_pos hsize] at h
            cases h
          · have hwrites : wp (fun _ => True) (writeSegment info thumbnail)
                (fun e t => ∃ l, t.stores = l ++ Store.block .header 0 (headerBytes (app1Length e)))
                ⟨size, 0, []⟩ := by
              rw [writeSegment, wp_bind]
              refine wp_mono (wp_writeIFDs info thumbnail (Nat.not_lt.mp hsize))
                (fun _ _ => trivial) ?_
              rintro e t ⟨-, hsame, -⟩
              have hroom : 10 ≤ t.size := hsame ▸ Nat.not_lt.mp hsize
              rw [wp_bind]
              refine wp_mono (wp_writeAPP1Header (E := fun _ => True) (app1Length e) hroom)
                (fun _ he => he) ?_
              rintro _ u rfl
              exact ⟨t.stores, rfl⟩
            rw [writeAPP1, if_neg hsize] at h
            rw [wp] at hwrites
            cases hrun : writeSegment info thumbnail ⟨size, 0, []⟩ with
            | error e =>
                rw [hrun] at h
                cases h
            | ok q =>
                rw [hrun] at h hwrites
                cases h
                exact hwrites

namespace WexifIn

variable {p : WexifIn} {m : Memory} {out : Output}

theorem header_app1 (hrun : p.writeAPP1 = .ok out) {i : ℕ} (hi : i < 10) :
    (p.afterAPP1 m).shift p.tempBufPtr.toNat i =
      (headerBytes (app1Length out.endOffset)).getD i 0 := by
  obtain ⟨l, hstores⟩ := stores_writeAPP1 hrun
  have hshows := Store.shows_image (Store.moved p.tempBufPtr.toNat out.stores) m
  rw [hstores, Store.moved_append, Store.moved_block] at hshows
  have hlt : i < (headerBytes (app1Length out.endOffset)).length := hi
  have hget := hshows.right.getElem hlt
  rw [← Store.moved_block, ← Store.moved_append, ← hstores] at hget
  rw [afterAPP1, hrun, List.getD_eq_getElem?_getD, List.getElem?_eq_getElem hlt]
  exact hget

end WexifIn

theorem word_byteOf {x : ℕ} (h : x < 65536) : word (byteOf x 1) (byteOf x 0) = x := by
  rw [word, byteOf, byteOf, UInt8.toNat_ofNat', UInt8.toNat_ofNat']
  omega

theorem bytes_app1 {p : WexifIn} {m : Memory} {out : Output} (hrun : p.writeAPP1 = .ok out)
    (hlength : 2 ≤ app1Length out.endOffset) :
    ∃ l : List UInt8, app1Length out.endOffset = l.length + 2 ∧
      ((p.afterAPP1 m).shift p.tempBufPtr.toNat).bytes 0 out.app1Size =
        [0xFF, 0xe1] ++ (be16 (app1Length out.endOffset) ++ l) := by
  obtain ⟨k, hk⟩ := Nat.exists_eq_add_of_le hlength
  have hsize : out.app1Size = k + 1 + 1 + 1 + 1 := by
    change app1Length out.endOffset + 2 = _
    omega
  have hheader : ∀ i < 10, (p.afterAPP1 m).shift p.tempBufPtr.toNat i =
      (headerBytes (app1Length out.endOffset)).getD i 0 := fun i hi =>
    WexifIn.header_app1 hrun hi
  refine ⟨((p.afterAPP1 m).shift p.tempBufPtr.toNat).bytes 4 k, ?_, ?_⟩
  · rw [Memory.length_bytes, hk, Nat.add_comm]
  · rw [hsize, Memory.bytes_succ, Memory.bytes_succ, Memory.bytes_succ, Memory.bytes_succ,
      hheader 0 (by decide), hheader (0 + 1) (by decide), hheader (0 + 1 + 1) (by decide),
      hheader (0 + 1 + 1 + 1) (by decide)]
    rfl

theorem Inserted.bytes {app1 source result : Memory} {n size : ℕ}
    (h : Inserted app1 n source size result) (htwo : 2 ≤ size) :
    result.bytes 0 (n + size) =
      [0xFF, JpegParse.M_SOI] ++ (app1.bytes 0 n ++ source.bytes 2 (size - 2)) := by
  obtain ⟨k, rfl⟩ := Nat.exists_eq_add_of_le htwo
  have hsum : n + (2 + k) = n + k + 1 + 1 := by omega
  have happ1 : result.bytes 2 n = app1.bytes 0 n :=
    Memory.bytes_congr fun i hi => (h.app1 i hi).trans (congrArg app1 (Nat.zero_add i).symm)
  have hrest : result.bytes (2 + n) k = source.bytes 2 k := Memory.bytes_congr fun i hi => by
    rw [← h.rest (2 + i) (Nat.le_add_right 2 i) (by omega)]
    exact congrArg result (by omega)
  rw [hsum, Memory.bytes_succ, Memory.bytes_succ, h.marker, h.soi, Memory.bytes_add, happ1, hrest,
    Nat.add_sub_cancel_left]
  rfl

theorem Inserted.sameHead {p : WexifIn} {m : Memory} {out : Output} {result : Memory}
    (hrun : p.writeAPP1 = .ok out) (hlength : 2 ≤ app1Length out.endOffset)
    (htwo : 2 ≤ p.srcJpegSize.toNat)
    (hsoi : m.bytes p.srcJpegBufPtr.toNat 2 = [M_MARKER, M_SOI])
    (h : Inserted ((p.afterAPP1 m).shift p.tempBufPtr.toNat) out.app1Size
      (m.shift p.srcJpegBufPtr.toNat) p.srcJpegSize.toNat result) :
    SameHead (m.bytes p.srcJpegBufPtr.toNat p.srcJpegSize.toNat)
      (result.bytes 0 (out.app1Size + p.srcJpegSize.toNat)) := by
  obtain ⟨l, hlen, happ1⟩ := bytes_app1 (m := m) hrun hlength
  have hlt : app1Length out.endOffset < 65536 := Nat.mod_lt _ (by decide)
  have hsource : m.bytes p.srcJpegBufPtr.toNat p.srcJpegSize.toNat = [0xFF, JpegParse.M_SOI] ++
      (m.shift p.srcJpegBufPtr.toNat).bytes 2 (p.srcJpegSize.toNat - 2) := by
    obtain ⟨k, hk⟩ := Nat.exists_eq_add_of_le htwo
    rw [hk, Memory.bytes_add, hsoi, Nat.add_sub_cancel_left]
    refine congrArg ([0xFF, JpegParse.M_SOI] ++ ·) (Memory.bytes_congr fun i _ => ?_)
    exact congrArg m (Nat.add_assoc _ _ _)
  rw [hsource, h.bytes htwo, happ1]
  exact sameHead_app1 ((word_byteOf hlt).trans hlen) _

/-- A picture that gets EXIF data, in a file or in the memory before it, is to `ParseHead`
what it was before: it comes to the same end with the same decoder and the same bytes left. -/
theorem addExif_parse {p : WexifIn} (hp : p.SourceApart) {m : Memory}
    (htwo : 2 ≤ p.srcJpegSize.toNat)
    (hsoi : m.bytes p.srcJpegBufPtr.toNat 2 = [M_MARKER, M_SOI]) {out : Output}
    (hrun : p.writeAPP1 = .ok out) (hlength : 2 ≤ app1Length out.endOffset) :
    (p.Apart → p.targetBufPtr.toNat + out.app1Size ≤ p.srcJpegBufPtr.toNat →
      ∃ o m', addExifToMemory p m = (.ok o, m') ∧
        SameHead (m.bytes p.srcJpegBufPtr.toNat p.srcJpegSize.toNat)
          (m'.bytes o.outputBufPtr.toNat o.outputSize.toNat)) ∧
    ∀ (func : WriteFile) (f : File), func.WritesAll →
      f.size ≤ out.app1Size + p.srcJpegSize.toNat →
      ∃ f', (addExifToFile func p m).run f = (.ok (), f') ∧
        SameHead (m.bytes p.srcJpegBufPtr.toNat p.srcJpegSize.toNat)
          (f'.bytes.bytes 0 f'.size) := by
  have hinside := hp.inside
  constructor
  · intro hapart hfree
    have hsame :=
      (WexifIn.inserted_memory (m := m) hapart hrun hfree).sameHead hrun hlength htwo hsoi
    have houtput : (UInt32.ofNat out.app1Size + p.srcJpegSize).toNat =
        out.app1Size + p.srcJpegSize.toNat := by
      rw [toNat_add_of_lt, toNat_app1Size]
      rw [toNat_app1Size]
      omega
    have hok := congrArg Prod.fst (WexifIn.addExifToMemory_eq (m := m) hrun hfree)
    refine ⟨_, (addExifToMemory p m).2, Prod.ext hok rfl, ?_⟩
    rw [WexifIn.toNat_target p out (by omega), houtput]
    have hbytes : ((addExifToMemory p m).2.shift (p.srcJpegBufPtr.toNat - out.app1Size)).bytes 0
        (out.app1Size + p.srcJpegSize.toNat) =
      (addExifToMemory p m).2.bytes (p.srcJpegBufPtr.toNat - out.app1Size)
        (out.app1Size + p.srcJpegSize.toNat) :=
      Memory.bytes_congr fun i _ => by rw [Nat.zero_add, Memory.shift_apply]
    rwa [hbytes] at hsame
  · intro func f hfunc hsize
    obtain ⟨f', hfile, hsize', hinserted⟩ := inserted_file hfunc hp (m := m) hrun htwo f
    refine ⟨f', hfile, ?_⟩
    rw [hsize', Nat.max_eq_right hsize]
    exact hinserted.sameHead hrun hlength htwo hsoi

theorem addExif_parse_plainWexif : ∃ o m', addExifToMemory plainWexif plainSource = (.ok o, m') ∧
    SameHead (plainSource.bytes 0x2148 4) (m'.bytes o.outputBufPtr.toNat o.outputSize.toNat) := by
  obtain ⟨out, hrun, hsize, hapart⟩ := apart_plainWexif
  have hlength : app1Length out.endOffset + 2 = 328 := hsize
  have hfree : plainWexif.targetBufPtr.toNat + out.app1Size ≤ plainWexif.srcJpegBufPtr.toNat := by
    rw [hsize]
    decide
  exact (addExif_parse hapart.toSourceApart (m := plainSource) (by decide) (by decide) hrun
    (by omega)).1 hapart hfree

end Exif

end Tarako
