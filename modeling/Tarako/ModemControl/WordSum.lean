import Tarako.Lib.OnesSum
import Tarako.ModemControl.Crc16

/-!
# The two word sums of the loader

`frm_chk` takes two words a turn and `boot_checksum` one. Both are the complement of the
end-around-carry sum of the words.
-/

namespace Tarako

namespace ModemControl

open Words

theorem frmChkSum_eq (src : List UInt8) (sum : UInt32) :
    frmChkSum src sum = bootChecksumSum src sum := by
  fun_induction frmChkSum src sum with
  | case1 a b c d rest sum ih => rw [ih, bootChecksumSum, bootChecksumSum]
  | case2 a b c sum => rw [bootChecksumSum, bootChecksumSum]
  | case3 a b sum => rw [bootChecksumSum, bootChecksumSum]
  | case4 a sum => rw [bootChecksumSum]
  | case5 sum => rw [bootChecksumSum]

theorem frmChk_eq_bootChecksum (src : List UInt8) : frmChk src = bootChecksum src := by
  rw [frmChk, bootChecksum, frmChkSum_eq]

theorem bootChecksumSum_eq (src : List UInt8) (sum : UInt32) :
    bootChecksumSum src sum = OnesSum.accumulate src sum := by
  fun_induction bootChecksumSum src sum with
  | case1 a b rest sum ih => rw [ih, OnesSum.accumulate]
  | case2 a sum => rw [OnesSum.accumulate]
  | case3 sum => rw [OnesSum.accumulate]

/-- `boot_checksum` is the complement of the end-around-carry sum. -/
theorem toNat_bootChecksum {src : List UInt8} (h : src.length < 2 ^ 17) :
    (bootChecksum src).toNat = 65535 - OnesSum.sum 65535 (OnesSum.words src) := by
  have hnot : bootChecksum src = ~~~ OnesSum.fold (bootChecksumSum src 0) := rfl
  rw [hnot, UInt16.toNat_not, bootChecksumSum_eq, OnesSum.toNat_fold_accumulate h]
  rfl

/-- The two checks agree, and behind an even number of bytes the check makes the sum of all
words `0xFFFF`. -/
theorem loader_checksums_agree (src : List UInt8) (h : src.length ≤ 2 ^ 17 - 2) :
    frmChk src = bootChecksum src ∧
      (src.length % 2 = 0 →
        OnesSum.sum 65535 (OnesSum.words (src ++ bytes16 (bootChecksum src))) = 0xFFFF) := by
  refine ⟨frmChk_eq_bootChecksum src, fun heven => ?_⟩
  have hcheck : (bootChecksum src).toNat = 65535 - OnesSum.sum 65535 (OnesSum.words src) :=
    toNat_bootChecksum (by omega)
  have hlt := (bootChecksum src).toNat_lt
  have hword : OnesSum.words (bytes16 (bootChecksum src)) =
      [65535 - OnesSum.sum 65535 (OnesSum.words src)] := by
    rw [← hcheck, bytes16, OnesSum.words, OnesSum.words, UInt8.toNat_ofNat', UInt8.toNat_ofNat']
    exact congrArg (List.cons · []) (by omega)
  rw [OnesSum.words_append heven, hword]
  exact OnesSum.sum_append_complement (OnesSum.words_le src)

theorem loader_checksums_agree_four :
    frmChk [1, 2, 3, 4] = bootChecksum [1, 2, 3, 4] ∧
      (4 % 2 = 0 → OnesSum.sum 65535
        (OnesSum.words ([1, 2, 3, 4] ++ bytes16 (bootChecksum [1, 2, 3, 4]))) = 0xFFFF) :=
  loader_checksums_agree [1, 2, 3, 4] (by decide)

end ModemControl

end Tarako
