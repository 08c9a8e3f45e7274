import Tarako.Lib.Splice
import Tarako.Lib.Text

/-!
# The lines of an answer

`eng_modem2server` collects the lines of an answer in `send_array`, or in `largeString` for
the commands with long answers, until a final line says how the command went.
-/

namespace Tarako

namespace Engcs

open Text

def ascii (s : List Char) : List UInt8 := s.map fun c => UInt8.ofNat c.toNat

def ENG_AT_L1MON : ℤ := 103

def ENG_AT_GET_ASSERT_MODE : ℤ := 108

def ENG_AT_SGMR : ℤ := 70

/-! ## Final lines -/

def finalResponsesError : List (List UInt8) :=
  [ascii ['E', 'R', 'R', 'O', 'R'],
    ascii ['+', 'C', 'M', 'S', ' ', 'E', 'R', 'R', 'O', 'R', ':'],
    ascii ['+', 'C', 'M', 'E', ' ', 'E', 'R', 'R', 'O', 'R', ':'],
    ascii ['N', 'O', ' ', 'C', 'A', 'R', 'R', 'I', 'E', 'R'],
    ascii ['N', 'O', ' ', 'A', 'N', 'S', 'W', 'E', 'R'],
    ascii ['N', 'O', ' ', 'D', 'I', 'A', 'L', 'T', 'O', 'N', 'E']]

def finalResponsesSuccess : List (List UInt8) :=
  [ascii ['O', 'K'], ascii ['C', 'O', 'N', 'N', 'E', 'C', 'T']]

def isFinalResponseError (line : List UInt8) : Bool :=
  finalResponsesError.any fun p => p.isPrefixOf line

def isFinalResponseSuccess (line : List UInt8) : Bool :=
  finalResponsesSuccess.any fun p => p.isPrefixOf line

def engIsLargeInfoAt (cmd : ℤ) : Bool :=
  cmd = ENG_AT_L1MON || cmd = ENG_AT_GET_ASSERT_MODE || cmd = ENG_AT_SGMR

/-! ## The lines of an answer, collected -/

def SEND_ARRAY_MAX_LEN : ℕ := 512

def SEND_DATA_START_POS : ℕ := 2

/-- `send_array`; its `index` and `item_num` are bytes. -/
structure SendArray where
  index : ℕ
  itemNum : ℕ
  array : Buffer UInt8 SEND_ARRAY_MAX_LEN
  index_lt : index < 256

/-- `send_array` and `largeString`. -/
structure Parcel where
  sendArray : SendArray
  largeIndex : ℕ
  largeString : Buffer UInt8 2048

namespace Parcel

def clear : Parcel where
  sendArray := ⟨SEND_DATA_START_POS, 0, Buffer.fill SEND_ARRAY_MAX_LEN 0, by decide⟩
  largeIndex := 0
  largeString := Buffer.fill 2048 0

end Parcel

/-- `eng_push_array`: the length, a byte, and as many bytes of the line. -/
def SendArray.push (a : SendArray) (line : List UInt8) : SendArray where
  index := (a.index + line.length % 256 + 1) % 256
  itemNum := (a.itemNum + 1) % 256
  array := (a.array.set a.index (UInt8.ofNat line.length)).write (a.index + 1)
    (line.take (line.length % 256)) (by
      have hlt := a.index_lt
      have hlen : (line.take (line.length % 256)).length ≤ 255 := by
        rw [List.length_take]
        omega
      rw [SEND_ARRAY_MAX_LEN]
      omega)
  index_lt := Nat.mod_lt _ (by decide)

def SendArray.finish (a : SendArray) : SendArray :=
  { a with array := (a.array.set 0 (UInt8.ofNat a.index)).set 1 (UInt8.ofNat a.itemNum) }

namespace Parcel

/-- The line is pushed to `largeString` or to `send_array`. -/
def push (p : Parcel) (cmd : ℤ) (line : List UInt8) : Option Parcel :=
  if engIsLargeInfoAt cmd then
    (p.largeString.write? p.largeIndex (line.take (line.length % 256) ++ [10])).map fun b =>
      { p with largeString := b, largeIndex := p.largeIndex + line.length % 256 + 1 }
  else some { p with sendArray := p.sendArray.push line }

/-- `send_data` behind a final line that reports success. -/
def success (p : Parcel) (cmd : ℤ) : List UInt8 :=
  let data := if engIsLargeInfoAt cmd then p.largeString.bytes else p.sendArray.finish.array.bytes
  -- no content
  if data[1]? = some 0 then Splice.splice data 0 (ascii ['O', 'K'] ++ [0]) else data

/-- `send_data` behind a final line that reports an error. -/
def error (p : Parcel) : List UInt8 :=
  Splice.splice p.sendArray.array.bytes 0 (ascii ['E', 'R', 'R', 'O', 'R'] ++ [0])

/-- `send_data` behind the final line `line`. -/
def sendData (p : Parcel) (cmd : ℤ) (line : List UInt8) : List UInt8 :=
  if isFinalResponseSuccess line then p.success cmd else p.error

end Parcel

end Engcs

end Tarako
