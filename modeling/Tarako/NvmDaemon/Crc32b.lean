import Tarako.Lib.Crc
import Tarako.Lib.Splice

/-!
# The CRC of the product information

`crc32b` of `crc32b.c`, by a table and eight bytes a turn, and the image that
`update_productinfofile_emmc` makes with it in the build with `CONFIG_EMMC`.
-/

namespace Tarako

namespace NvmDaemon

open Splice

def crcTable : List UInt32 :=
  [
    0x00000000, 0x04C11DB7, 0x09823B6E, 0x0D4326D9, 0x130476DC, 0x17C56B6B, 0x1A864DB2,
    0x1E475005, 0x2608EDB8, 0x22C9F00F, 0x2F8AD6D6, 0x2B4BCB61, 0x350C9B64, 0x31CD86D3,
    0x3C8EA00A, 0x384FBDBD, 0x4C11DB70, 0x48D0C6C7, 0x4593E01E, 0x4152FDA9, 0x5F15ADAC,
    0x5BD4B01B, 0x569796C2, 0x52568B75, 0x6A1936C8, 0x6ED82B7F, 0x639B0DA6, 0x675A1011,
    0x791D4014, 0x7DDC5DA3, 0x709F7B7A, 0x745E66CD, 0x9823B6E0, 0x9CE2AB57, 0x91A18D8E,
    0x95609039, 0x8B27C03C, 0x8FE6DD8B, 0x82A5FB52, 0x8664E6E5, 0xBE2B5B58, 0xBAEA46EF,
    0xB7A96036, 0xB3687D81, 0xAD2F2D84, 0xA9EE3033, 0xA4AD16EA, 0xA06C0B5D, 0xD4326D90,
    0xD0F37027, 0xDDB056FE, 0xD9714B49, 0xC7361B4C, 0xC3F706FB, 0xCEB42022, 0xCA753D95,
    0xF23A8028, 0xF6FB9D9F, 0xFBB8BB46, 0xFF79A6F1, 0xE13EF6F4, 0xE5FFEB43, 0xE8BCCD9A,
    0xEC7DD02D, 0x34867077, 0x30476DC0, 0x3D044B19, 0x39C556AE, 0x278206AB, 0x23431B1C,
    0x2E003DC5, 0x2AC12072, 0x128E9DCF, 0x164F8078, 0x1B0CA6A1, 0x1FCDBB16, 0x018AEB13,
    0x054BF6A4, 0x0808D07D, 0x0CC9CDCA, 0x7897AB07, 0x7C56B6B0, 0x71159069, 0x75D48DDE,
    0x6B93DDDB, 0x6F52C06C, 0x6211E6B5, 0x66D0FB02, 0x5E9F46BF, 0x5A5E5B08, 0x571D7DD1,
    0x53DC6066, 0x4D9B3063, 0x495A2DD4, 0x44190B0D, 0x40D816BA, 0xACA5C697, 0xA864DB20,
    0xA527FDF9, 0xA1E6E04E, 0xBFA1B04B, 0xBB60ADFC, 0xB6238B25, 0xB2E29692, 0x8AAD2B2F,
    0x8E6C3698, 0x832F1041, 0x87EE0DF6, 0x99A95DF3, 0x9D684044, 0x902B669D, 0x94EA7B2A,
    0xE0B41DE7, 0xE4750050, 0xE9362689, 0xEDF73B3E, 0xF3B06B3B, 0xF771768C, 0xFA325055,
    0xFEF34DE2, 0xC6BCF05F, 0xC27DEDE8, 0xCF3ECB31, 0xCBFFD686, 0xD5B88683, 0xD1799B34,
    0xDC3ABDED, 0xD8FBA05A, 0x690CE0EE, 0x6DCDFD59, 0x608EDB80, 0x644FC637, 0x7A089632,
    0x7EC98B85, 0x738AAD5C, 0x774BB0EB, 0x4F040D56, 0x4BC510E1, 0x46863638, 0x42472B8F,
    0x5C007B8A, 0x58C1663D, 0x558240E4, 0x51435D53, 0x251D3B9E, 0x21DC2629, 0x2C9F00F0,
    0x285E1D47, 0x36194D42, 0x32D850F5, 0x3F9B762C, 0x3B5A6B9B, 0x0315D626, 0x07D4CB91,
    0x0A97ED48, 0x0E56F0FF, 0x1011A0FA, 0x14D0BD4D, 0x19939B94, 0x1D528623, 0xF12F560E,
    0xF5EE4BB9, 0xF8AD6D60, 0xFC6C70D7, 0xE22B20D2, 0xE6EA3D65, 0xEBA91BBC, 0xEF68060B,
    0xD727BBB6, 0xD3E6A601, 0xDEA580D8, 0xDA649D6F, 0xC423CD6A, 0xC0E2D0DD, 0xCDA1F604,
    0xC960EBB3, 0xBD3E8D7E, 0xB9FF90C9, 0xB4BCB610, 0xB07DABA7, 0xAE3AFBA2, 0xAAFBE615,
    0xA7B8C0CC, 0xA379DD7B, 0x9B3660C6, 0x9FF77D71, 0x92B45BA8, 0x9675461F, 0x8832161A,
    0x8CF30BAD, 0x81B02D74, 0x857130C3, 0x5D8A9099, 0x594B8D2E, 0x5408ABF7, 0x50C9B640,
    0x4E8EE645, 0x4A4FFBF2, 0x470CDD2B, 0x43CDC09C, 0x7B827D21, 0x7F436096, 0x7200464F,
    0x76C15BF8, 0x68860BFD, 0x6C47164A, 0x61043093, 0x65C52D24, 0x119B4BE9, 0x155A565E,
    0x18197087, 0x1CD86D30, 0x029F3D35, 0x065E2082, 0x0B1D065B, 0x0FDC1BEC, 0x3793A651,
    0x3352BBE6, 0x3E119D3F, 0x3AD08088, 0x2497D08D, 0x2056CD3A, 0x2D15EBE3, 0x29D4F654,
    0xC5A92679, 0xC1683BCE, 0xCC2B1D17, 0xC8EA00A0, 0xD6AD50A5, 0xD26C4D12, 0xDF2F6BCB,
    0xDBEE767C, 0xE3A1CBC1, 0xE760D676, 0xEA23F0AF, 0xEEE2ED18, 0xF0A5BD1D, 0xF464A0AA,
    0xF9278673, 0xFDE69BC4, 0x89B8FD09, 0x8D79E0BE, 0x803AC667, 0x84FBDBD0, 0x9ABC8BD5,
    0x9E7D9662, 0x933EB0BB, 0x97FFAD0C, 0xAFB010B1, 0xAB710D06, 0xA6322BDF, 0xA2F33668,
    0xBCB4666D, 0xB8757BDA, 0xB5365D03, 0xB1F740B4]

@[irreducible] def crcDo1 (crc : UInt32) (b : UInt8) : UInt32 :=
  crcTable.getD (((crc >>> 24) ^^^ b.toUInt32) &&& 0xFF).toNat 0 ^^^ (crc <<< 8)

/-- `crc32b`: eight bytes a turn, and then the ones that are left. -/
def crc32b : UInt32 → List UInt8 → UInt32
  | crc, b₀ :: b₁ :: b₂ :: b₃ :: b₄ :: b₅ :: b₆ :: b₇ :: buf =>
      let crc := crcDo1 (crcDo1 (crcDo1 (crcDo1 crc b₀) b₁) b₂) b₃
      let crc := crcDo1 (crcDo1 (crcDo1 (crcDo1 crc b₄) b₅) b₆) b₇
      crc32b crc buf
  | crc, buf => buf.foldl crcDo1 crc

def crcPolynomial : BitVec 32 := 0x04C11DB7

/-! ### The table and the loop -/

/-- An entry of the table is what its index leaves in an empty register. -/
theorem crcTable_eq : ∀ i : Fin 256, (crcTable.getD i.val 0).toBitVec =
    Crc.bits crcPolynomial 0 (Crc.msbFirst (BitVec.ofNat 8 i.val)) := by
  decide +kernel

theorem crc32b_eq_foldl : ∀ (crc : UInt32) (buf : List UInt8),
    crc32b crc buf = buf.foldl crcDo1 crc
  | crc, b₀ :: b₁ :: b₂ :: b₃ :: b₄ :: b₅ :: b₆ :: b₇ :: buf => by
      rw [crc32b]
      exact crc32b_eq_foldl _ buf
  | _, [] | _, [_] | _, [_, _] | _, [_, _, _] | _, [_, _, _, _] | _, [_, _, _, _, _]
  | _, [_, _, _, _, _, _] | _, [_, _, _, _, _, _, _] => by simp only [crc32b]

/-- The index into the table is the byte that leaves the register, met by the message. -/
theorem getMsbD_index (crc : UInt32) (b : UInt8) {j : ℕ} (hj : j < 8) :
    (BitVec.ofNat 8 (((crc >>> 24) ^^^ b.toUInt32) &&& 0xFF).toNat).getMsbD j =
      (crc.toBitVec.getMsbD j ^^ b.toBitVec.getMsbD j) := by
  have hlow : BitVec.ofNat 8 (((crc >>> 24) ^^^ b.toUInt32) &&& 0xFF).toNat =
      ((crc >>> 24) ^^^ b.toUInt32).toBitVec.setWidth 8 := by
    apply BitVec.eq_of_toNat_eq
    rw [BitVec.toNat_ofNat, BitVec.toNat_setWidth, UInt32.toNat_and]
    exact (congrArg (· % 2 ^ 8) (Nat.and_two_pow_sub_one_eq_mod _ 8)).trans (Nat.mod_mod _ _)
  have hshift : 24 + (7 - j) = 31 - j := by omega
  rw [hlow]
  simp [BitVec.getMsbD, hj, hshift, Nat.lt_succ_of_le (Nat.sub_le 7 j),
    Nat.lt_of_lt_of_le hj (by decide : 8 ≤ 32)]

theorem crcDo1_eq (crc : UInt32) (b : UInt8) :
    (crcDo1 crc b).toBitVec =
      Crc.bits crcPolynomial crc.toBitVec (Crc.msbFirst b.toBitVec) := by
  have hlt : (((crc >>> 24) ^^^ b.toUInt32) &&& 0xFF).toNat < 256 := by
    rw [UInt32.toNat_and]
    exact Nat.lt_succ_of_le Nat.and_le_right
  have hstep := Crc.bits_eq_xor crcPolynomial crc.toBitVec fun j hj => getMsbD_index crc b hj
  rw [crcDo1, UInt32.toBitVec_xor, crcTable_eq ⟨_, hlt⟩]
  exact hstep.symm

theorem crc32b_toBitVec (crc : UInt32) (buf : List UInt8) :
    (crc32b crc buf).toBitVec = Crc.bytes crcPolynomial crc.toBitVec buf := by
  rw [crc32b_eq_foldl]
  induction buf generalizing crc with
  | nil => rfl
  | cons b buf ih =>
      rw [List.foldl_cons, ih, crcDo1_eq]
      rfl

theorem crc32b_append (crc : UInt32) (a b : List UInt8) :
    crc32b (crc32b crc a) b = crc32b crc (a ++ b) := by
  rw [crc32b_eq_foldl, crc32b_eq_foldl, crc32b_eq_foldl, List.foldl_append]

/-! ### The image -/

def crcBytes (crc : UInt32) : List UInt8 :=
  [((crc &&& 0xFF000000) >>> 24).toUInt8, ((crc &&& 0xFF0000) >>> 16).toUInt8,
    ((crc &&& 0xFF00) >>> 8).toUInt8, (crc &&& 0xFF).toUInt8]

/-- The part of `update_productinfofile_emmc` that changes `phasecheck_buffer`. -/
def stampProductinfoEmmc (buffer : List UInt8) (size : ℕ) : Option (List UInt8) := do
  let buffer ← store? buffer size [0x5A, 0x5A, 0x5A, 0x5A]
  let crc := crc32b 0xFFFFFFFF (buffer.take (size + 4))
  store? buffer (size + 4) (crcBytes crc)

/-- What `update_productinfofile_emmc` returns, and what it gives to `write` for which
file. -/
structure EmmcUpdate where
  ret : Int
  writes : List (String × List UInt8)
  deriving DecidableEq

/-- `update_productinfofile_emmc(src, dst, size)`, with the files that can be opened. -/
def updateProductinfofileEmmc (opens : String → Bool) (src dst : String)
    (buffer : List UInt8) (size : ℕ) : Option EmmcUpdate :=
  if src = dst then some ⟨-1, []⟩
  else do
    let buffer ← stampProductinfoEmmc buffer size
    let image := buffer.take (size + 8)
    if !opens src then some ⟨-1, []⟩
    else if !opens dst then some ⟨-1, [(src, image)]⟩
    else some ⟨1, [(src, image), (dst, image)]⟩

theorem flatMap_crcBytes (crc : UInt32) :
    ((crcBytes crc).flatMap fun b => Crc.msbFirst b.toBitVec) = Crc.msbFirst crc.toBitVec := by
  simp [crcBytes, Crc.msbFirst, List.range_succ, BitVec.getMsbD]

theorem crc32b_crcBytes (crc : UInt32) (data : List UInt8) :
    crc32b crc (data ++ crcBytes (crc32b crc data)) = 0 := by
  apply UInt32.toBitVec_inj.mp
  rw [crc32b_toBitVec]
  refine Crc.bytes_append_self crcPolynomial crc.toBitVec ?_
  rw [flatMap_crcBytes, crc32b_toBitVec]

/-- What a file of the product information should hold: the payload, four bytes of `0x5A` and
the check of both. -/
def emmcImage (payload : List UInt8) : List UInt8 :=
  payload ++ [0x5A, 0x5A, 0x5A, 0x5A] ++
    crcBytes (crc32b 0xFFFFFFFF (payload ++ [0x5A, 0x5A, 0x5A, 0x5A]))

theorem length_emmcImage (payload : List UInt8) :
    (emmcImage payload).length = payload.length + 8 := by
  simp [emmcImage, crcBytes]

theorem stampProductinfoEmmc_eq {buffer : List UInt8} {size : ℕ}
    (h : size + 8 ≤ buffer.length) :
    ∃ stamped, stampProductinfoEmmc buffer size = some stamped ∧
      stamped.take (size + 8) = emmcImage (buffer.take size) := by
  obtain ⟨filled, hfilled⟩ : ∃ m, splice buffer size [0x5A, 0x5A, 0x5A, 0x5A] = m := ⟨_, rfl⟩
  have hfits : size + [(0x5A : UInt8), 0x5A, 0x5A, 0x5A].length ≤ buffer.length := by
    simp only [List.length_cons, List.length_nil]
    omega
  have hlen : filled.length = buffer.length := by
    rw [← hfilled]
    exact length_splice hfits
  have htake : filled.take (size + 4) = buffer.take size ++ [0x5A, 0x5A, 0x5A, 0x5A] := by
    rw [← hfilled]
    exact take_splice (d := [0x5A, 0x5A, 0x5A, 0x5A]) (by omega)
  obtain ⟨crc, hcrc⟩ : ∃ c, crc32b 0xFFFFFFFF (filled.take (size + 4)) = c := ⟨_, rfl⟩
  have hcheck : size + 4 + (crcBytes crc).length ≤ filled.length := by
    simp only [crcBytes, List.length_cons, List.length_nil]
    omega
  refine ⟨splice filled (size + 4) (crcBytes crc), ?_, ?_⟩
  · rw [stampProductinfoEmmc, store?, if_pos hfits, hfilled]
    change store? filled (size + 4) (crcBytes (crc32b 0xFFFFFFFF (filled.take (size + 4)))) = _
    rw [hcrc, store?, if_pos hcheck]
  · have himage : (splice filled (size + 4) (crcBytes crc)).take (size + 8) =
        filled.take (size + 4) ++ crcBytes crc :=
      take_splice (d := crcBytes crc) (by omega)
    rw [himage, ← hcrc, htake, emmcImage]

/-- `crc32b` is the check bit by bit, of data in pieces too. Every file of the product information
that can be opened is given the image, the second one only behind the first, and the check of
the image is zero. -/
theorem crc32b_reference :
    (∀ (crc : UInt32) (buf : List UInt8),
      (crc32b crc buf).toBitVec = Crc.bytes crcPolynomial crc.toBitVec buf) ∧
    (∀ (crc : UInt32) (a b : List UInt8), crc32b (crc32b crc a) b = crc32b crc (a ++ b)) ∧
    ∀ (opens : String → Bool) (src dst : String) (buffer : List UInt8) (size : ℕ),
      size + 8 ≤ buffer.length →
        let image := emmcImage (buffer.take size)
        image.length = size + 8 ∧ crc32b 0xFFFFFFFF image = 0 ∧
          ∃ update, updateProductinfofileEmmc opens src dst buffer size = some update ∧
            update.writes = if src = dst ∨ opens src = false then []
              else if opens dst = false then [(src, image)]
              else [(src, image), (dst, image)] := by
  refine ⟨crc32b_toBitVec, crc32b_append, fun opens src dst buffer size h => ?_⟩
  obtain ⟨stamped, hstamp, himage⟩ := stampProductinfoEmmc_eq h
  refine ⟨?_, crc32b_crcBytes _ _, ?_⟩
  · rw [length_emmcImage, List.length_take, Nat.min_eq_left (by omega)]
  · rw [updateProductinfofileEmmc]
    by_cases hsame : src = dst
    · exact ⟨⟨-1, []⟩, if_pos hsame, (if_pos (Or.inl hsame)).symm⟩
    · rw [if_neg hsame]
      simp only [hstamp, Option.bind_eq_bind, Option.bind_some, himage, hsame, false_or]
      cases hsrc : opens src with
      | false => exact ⟨⟨-1, []⟩, rfl, rfl⟩
      | true =>
          cases hdst : opens dst with
          | false => exact ⟨_, rfl, rfl⟩
          | true => exact ⟨_, rfl, rfl⟩

theorem crc32b_reference_written :
    let image := emmcImage [0xFF]
    image.length = 9 ∧ crc32b 0xFFFFFFFF image = 0 ∧
      ∃ update, updateProductinfofileEmmc (fun _ => true) "prodinfo1" "prodinfo2"
          (List.replicate 9 0xFF) 1 = some update ∧
        update.writes = [("prodinfo1", image), ("prodinfo2", image)] :=
  crc32b_reference.2.2 (fun _ => true) "prodinfo1" "prodinfo2" (List.replicate 9 0xFF) 1
    (by decide)

end NvmDaemon

end Tarako
