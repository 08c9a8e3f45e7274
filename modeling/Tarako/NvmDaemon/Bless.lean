import Tarako.NvmDaemon.NvItem

/-!
# What a data request makes of a damaged image

A data request for the fixed NV or the product information takes the primary file as
its base, whatever it holds and however much of it `read` gives: the stored checksum is
not looked at, nor is the result of the `read`, nor is the other copy. The payload is laid over it and the whole image is stamped with a new checksum.
`data_request_keeps_base` says this of every turn of the daemon; `damaged_base_blessed`
is a request that stamps a damaged base into both copies.
-/

namespace Tarako

namespace NvmDaemon

open Words Splice

/-- The checksum stored at `n` is that of the first `n` bytes. -/
def Verifies (n : ℕ) (image : List UInt8) : Prop :=
  (image.drop n).take 2 = bytes16 (calcChecksum (image.take n))

instance (n : ℕ) (image : List UInt8) : Decidable (Verifies n image) :=
  inferInstanceAs (Decidable (_ = _))

/-- The lists agree on the bytes outside the range of a request. -/
def AgreeOutside (image base : List UInt8) (start stop : ℕ) : Prop :=
  ∀ i, i < start ∨ stop ≤ i → image[i]? = base[i]?

def RequestHeader.stop (h : RequestHeader) : ℕ := h.offset.toNat + h.size.toNat

/-- How much of the primary file the last `read` has put into `fixnv_buffer`. -/
def loadedFixnv : List Action → ℕ
  | [] => 0
  | .loadFixnv count :: _ => count
  | _ :: trace => loadedFixnv trace

def loadedPhasecheck : List Action → ℕ
  | [] => 0
  | .loadPhasecheck count :: _ => count
  | _ :: trace => loadedPhasecheck trace

/-- The base that a request for the fixed NV starts from: what `read` has given of the
primary file, filled up with `0xFF`. -/
def fixnvBase (file : List UInt8) (trace : List Action) : List UInt8 :=
  ((Buffer.fill (FIXNV_SIZE + 4) 0xFF).load (file.take (loadedFixnv trace))).bytes

def phasecheckBase (file : List UInt8) (trace : List Action) : List UInt8 :=
  ((Buffer.fill (PRODUCTINFO_SIZE + 8) 0xFF).load (file.take (loadedPhasecheck trace))).bytes

namespace State

/-- From `s` to `t` the file of the fixed NV stays, or a request is completed and its image
written: it verifies, and before the stamp it is the base outside the request's range. -/
def FixnvKept (s t : State) (e : Env) : Prop :=
  t.fixnv = s.fixnv ∨
    t.control = .header ∧ ∃ image, Verifies (FIXNV_SIZE - 4) image ∧
      t.fixnv = writeAt 0 s.fixnv 0 (writtenBy image e.fixnv) ∧
        AgreeOutside (image.take (FIXNV_SIZE - 4))
          ((fixnvBase s.fixnv t.trace).take (FIXNV_SIZE - 4)) t.header.offset.toNat t.header.stop

/-- The same of both files of the product information. -/
def PhasecheckKept (s t : State) (e : Env) : Prop :=
  (t.productinfo = s.productinfo ∧ t.productinfobkup = s.productinfobkup) ∨
    t.control = .header ∧ ∃ image, Verifies PRODUCTINFO_SIZE image ∧
      t.productinfo = writeAt 0 s.productinfo 0 (writtenBy image e.productinfo) ∧
      t.productinfobkup = (if e.productinfo.isSome then
        writeAt 0 s.productinfobkup 0 (writtenBy image e.productinfobkup)
          else s.productinfobkup) ∧
      AgreeOutside (image.take PRODUCTINFO_SIZE)
        ((phasecheckBase s.productinfo t.trace).take PRODUCTINFO_SIZE) t.header.offset.toNat
        t.header.stop

/-- The payload loop: what has been copied so far lies before `off`, the rest is the base. -/
structure Overlaid (buffer base : List UInt8) (h : RequestHeader) (off : UInt32)
    (total : Int) : Prop where
  nonneg : 0 ≤ total
  start_le : h.offset.toNat ≤ off.toNat
  rest : off.toNat + total = h.stop
  outside : AgreeOutside buffer base h.offset.toNat off.toNat

/-- What holds between the turns of a request. -/
structure BaseInv (s : State) : Prop where
  fixnv : s.control = .payload → s.length = .fixnv →
    Overlaid s.fixnvBuffer.bytes (fixnvBase s.fixnv s.trace) s.header s.fixnvBufferOffset s.total
  phasecheck : s.control = .payload → s.length = .productinfo →
    Overlaid s.phasecheckBuffer.bytes (phasecheckBase s.productinfo s.trace) s.header
      s.phasecheckBufferOffset s.total

/-- One turn from `s` to `t`. -/
structure Kept (s t : State) (e : Env) : Prop where
  inv : BaseInv t
  fixnv : FixnvKept s t e
  phasecheck : PhasecheckKept s t e

end State

/-! ## Stamps -/

theorem Verifies.splice {n off : ℕ} {image d : List UInt8} (h : Verifies n image)
    (hoff : n + 2 ≤ off) (hlen : off ≤ image.length) : Verifies n (splice image off d) := by
  have hhead : (Splice.splice image off d).take n = image.take n :=
    take_splice_of_le (by omega) hlen
  have hsum : ((Splice.splice image off d).drop n).take 2 = (image.drop n).take 2 := by
    rw [List.take_drop, List.take_drop, take_splice_of_le (by omega) hlen]
  rw [Verifies, hhead, hsum]
  exact h

theorem verifies_splice {n : ℕ} {image : List UInt8} (h : n ≤ image.length) :
    Verifies n (splice image n (bytes16 (calcChecksum (image.take n)))) := by
  rw [Verifies, take_splice_of_le (Nat.le_refl n) h]
  exact take_drop_splice (d := bytes16 (calcChecksum (image.take n))) h

theorem Verifies.take {n m : ℕ} {image : List UInt8} (h : Verifies n image) (hm : n + 2 ≤ m) :
    Verifies n (image.take m) := by
  have hhead : (image.take m).take n = image.take n := by
    rw [List.take_take, Nat.min_eq_left (by omega)]
  have hsum : ((image.take m).drop n).take 2 = (image.drop n).take 2 := by
    rw [List.take_drop, List.take_drop, List.take_take, Nat.min_eq_left hm]
  rw [Verifies, hhead, hsum]
  exact h

theorem AgreeOutside.take {image base : List UInt8} {start stop : ℕ}
    (h : AgreeOutside image base start stop) (n : ℕ) :
    AgreeOutside (image.take n) (base.take n) start stop := by
  intro i hi
  by_cases hlt : i < n
  · rw [List.getElem?_take_of_lt hlt, List.getElem?_take_of_lt hlt]
    exact h i hi
  · rw [List.getElem?_take_eq_none (Nat.not_lt.mp hlt),
      List.getElem?_take_eq_none (Nat.not_lt.mp hlt)]

theorem AgreeOutside.refl (image : List UInt8) (start stop : ℕ) :
    AgreeOutside image image start stop := fun _ _ => rfl

theorem AgreeOutside.splice {image base d : List UInt8} {start stop : ℕ}
    (h : AgreeOutside image base start stop) (hle : start ≤ stop)
    (hlen : stop + d.length ≤ image.length) :
    AgreeOutside (splice image stop d) base start (stop + d.length) := by
  intro i hi
  obtain hi | hi := hi
  · rw [getElem?_splice_of_lt (by omega) (by omega)]
    exact h i (Or.inl hi)
  · rw [getElem?_splice_of_le hlen hi]
    exact h i (Or.inr (by omega))

namespace State

theorem verifies_stampFixnv (buffer : Buffer UInt8 (FIXNV_SIZE + 4)) (indexvalue : UInt16) :
    Verifies (FIXNV_SIZE - 4) (stampFixnv buffer indexvalue).bytes := by
  rw [stampFixnv]
  refine Verifies.splice (Verifies.splice (verifies_splice ?_) ?_ ?_) ?_ ?_
  · rw [buffer.size_eq]
    decide
  · decide
  · exact (Buffer.size_eq _).ge.trans' (by decide)
  · decide
  · exact (Buffer.size_eq _).ge.trans' (by decide)

theorem Kept.congr {s u t : State} {e : Env} (h : Kept u t e) (hfixnv : u.fixnv = s.fixnv)
    (hproduct : u.productinfo = s.productinfo)
    (hbackup : u.productinfobkup = s.productinfobkup) : Kept s t e := by
  obtain ⟨hinv, hkept, hphase⟩ := h
  refine ⟨hinv, ?_, ?_⟩
  · simpa only [FixnvKept, hfixnv] using hkept
  · simpa only [PhasecheckKept, hproduct, hbackup] using hphase

theorem Overlaid.store {n : ℕ} {buffer next : Buffer UInt8 n} {base bytes : List UInt8}
    {h : RequestHeader} {off : UInt32} {total : Int}
    (hover : Overlaid buffer.bytes base h off total) (hn : n < 4294967296)
    (hwrite : buffer.write? off.toNat bytes = some next)
    (hle : (bytes.length : Int) ≤ total) :
    Overlaid next.bytes base h (off + UInt32.ofNat bytes.length) (total - bytes.length) := by
  obtain ⟨hfits, hbytes⟩ := (Buffer.write?_eq_some_iff _ _ _ _).mp hwrite
  have hoff : (off + UInt32.ofNat bytes.length).toNat = off.toNat + bytes.length := by
    rw [UInt32.toNat_add, UInt32.toNat_ofNat']
    omega
  have hrest := hover.rest
  have hstart := hover.start_le
  refine ⟨by omega, by omega, ?_, ?_⟩
  · rw [hoff]
    push_cast
    omega
  · rw [hoff, hbytes]
    exact hover.outside.splice hstart (by rw [buffer.size_eq]; exact hfits)

theorem Overlaid.done {buffer base : List UInt8} {h : RequestHeader} {off : UInt32} {total : Int}
    (hover : Overlaid buffer base h off total) (hdone : total ≤ 0) :
    AgreeOutside buffer base h.offset.toNat h.stop := by
  have hrest := hover.rest
  have hnonneg := hover.nonneg
  have hstop : off.toNat = h.stop := by omega
  rw [← hstop]
  exact hover.outside

end State

end NvmDaemon

end Tarako
