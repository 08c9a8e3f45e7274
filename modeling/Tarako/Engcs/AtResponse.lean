import Tarako.Engcs.AtCommand
import Tarako.Engcs.SpResponse

/-!
# Texts for the clients

`eng_atCommandResponse` makes the text for a client of the lines of an answer. A text that
says OK or ERROR is passed on; for the others there is a response function for each command,
which takes tokens out of the lines and prints them. A token behind the end of a line is not
stored, and then what its variable held on the stack is printed. A function has no result when
it leaves an array or follows a NULL pointer, and a command whose answer is not expected to
have lines has no text for them. `Settled` says that a text is made of the answer alone.
-/

namespace Tarako

namespace Engcs

open Text Hex

def SEND_DATA_ITEM_LENGTH_BYTES : ℕ := 1

def LARGE_ITEM_SIZE : ℕ := 256

def RESPOSE_DATA_SIZE : ℕ := 256

/-- What the locals of a response function hold before anything is stored in them: the
integers, in the order in which they are parsed, and the text in `tmp`. -/
structure Stack where
  ints : ℕ → ℤ
  tmp : List UInt8

/-! ## What is printed -/

/-- The text at a pointer into `memory`. -/
def textAt (memory : List UInt8) : Option (List UInt8) :=
  if 0 ∈ memory then some (cstring memory) else none

/-- The text of the first line, and of what comes behind it up to the first zero. -/
def firstContent (content : List UInt8) : Option (List UInt8) :=
  textAt (content.drop (SEND_DATA_START_POS + SEND_DATA_ITEM_LENGTH_BYTES))

def firstItem (size : ℕ) (content : List UInt8) : Option (List UInt8) := do
  let itemLen ← content[SEND_DATA_START_POS]?
  printItem size itemLen.toNat
    (content.drop (SEND_DATA_START_POS + SEND_DATA_ITEM_LENGTH_BYTES))

/-- `at_tok_nextstr` into a pointer to an empty string. -/
def nextStr (cur : Cursor) : List UInt8 := (atTokNextstr cur).stored.getD []

/-! ## Response functions for the first line -/

def eng_ResponseOneInt (stack : Stack) (data : List UInt8) : ℤ :=
  (atTokNextint (atTokStart (some data))).stored.getD (stack.ints 0)

def eng_ResponseCurrentBand := eng_ResponseOneInt

def eng_ResponseGetArmLog := eng_ResponseOneInt

def eng_ResponseGetAutoAnswer := eng_ResponseOneInt

def eng_ResponseCurrentAttach := eng_ResponseOneInt

/-- `sprintf(.., "%d", ..)` of what a function finds in the first line. -/
def intOfContent (f : Stack → List UInt8 → ℤ) (stack : Stack) (content : List UInt8) :
    Option (List UInt8) :=
  (firstContent content).map fun data => decimalInt (f stack data)

def eng_ResponseGetSPL1 := intOfContent eng_ResponseOneInt

def eng_ResponseGetTDMEASSWTH := intOfContent eng_ResponseOneInt

def eng_ResponseIntString (stack : Stack) (data : List UInt8) : List UInt8 :=
  let index := atTokNextint (atTokStart (some data))
  decimalInt (index.stored.getD (stack.ints 0)) ++ [44, 32] ++
    (atTokNextstr index.cur).stored.getD (cstring stack.tmp)

def eng_ResponseString (stack : Stack) (data : List UInt8) : List UInt8 :=
  (atTokNextstr (atTokStart (some data))).stored.getD (cstring stack.tmp)

def textOfContent (f : Stack → List UInt8 → List UInt8) (stack : Stack) (content : List UInt8) :
    Option (List UInt8) :=
  (firstContent content).map (f stack)

def eng_ResponseL1PARAM := textOfContent eng_ResponseIntString

def eng_ResponseTRRPARAM := textOfContent eng_ResponseIntString

def eng_ResponseRRDMPARAM := textOfContent eng_ResponseIntString

def eng_ResponseTDMEASSWTH := textOfContent eng_ResponseString

def eng_ResponseSMTIMER := textOfContent eng_ResponseString

def eng_ResponseTRRDCFEPARAM := textOfContent eng_ResponseIntString

/-- The length of what is behind the colon is taken without a look at the pointer. -/
def eng_ResponseMBCELLID (content : List UInt8) : Option (List UInt8) := do
  let text ← firstContent content
  let data ← atTokStart (some text)
  if 1 < data.length then
    let mnc := (atTokNextstr (some data)).cur
    let lac := (atTokNextstr mnc).cur
    let ci := (atTokNextstr lac).cur
    return List.intercalate [44] [nextStr (some data), nextStr mnc, nextStr lac, nextStr ci]
  else return [32]

/-- What is behind the colon in `item`. -/
def restOfItem (size : ℕ) (content : List UInt8) : Option (List UInt8) :=
  (firstItem size content).bind fun item => atTokStart (some item)

def eng_ResponseMBAU := restOfItem ITEM_SIZE

def eng_ResponseCCED := restOfItem LARGE_ITEM_SIZE

def strOfItem (content : List UInt8) : Option (List UInt8) :=
  (firstItem ITEM_SIZE content).map fun item => nextStr (atTokStart (some item))

def eng_ResponseHVER := strOfItem

def eng_ResponseSPVER := strOfItem

/-- The integers of `r` from the first line alone. -/
def SpResponse.first (r : SpResponse) (stack : Stack) (content : List UInt8) :
    Option (List UInt8) :=
  (firstItem ITEM_SIZE content).map fun item =>
    r.print (nextInts (r.itemPtr item) ((List.range r.width).map stack.ints))

def eng_ResponseEUICC := SpResponse.first ⟨true, 3, [0, 1, 2], []⟩

def eng_ResponseSYSINFO := SpResponse.first ⟨true, 7, [0, 1, 2, 3, 4, 5, 6], []⟩

def eng_ResponseGetSYSCONFIG := SpResponse.first ⟨true, 4, [0, 1, 2, 3], []⟩

def eng_ResponseCGREG (stack : Stack) (content : List UInt8) : Option (List UInt8) :=
  (firstItem ITEM_SIZE content).map fun item =>
    let int1 := atTokNextint (atTokStart (some item))
    let int2 := atTokNextint int1.cur
    let string2 := (atTokNextstr int2.cur).cur
    let int3 := atTokNextint (atTokNextstr string2).cur
    List.intercalate [44]
      [decimalInt (int1.stored.getD (stack.ints 0)), decimalInt (int2.stored.getD (stack.ints 1)),
        nextStr int2.cur, nextStr string2, decimalInt (int3.stored.getD (stack.ints 2))]

/-- The second integer is printed unless the first one is 144. -/
def eng_ResponseSETUPLMN (stack : Stack) (content : List UInt8) : Option (List UInt8) :=
  (firstItem LARGE_ITEM_SIZE content).map fun item =>
    let next := atTokNextint (atTokStart (some item))
    let int1 := next.stored.getD (stack.ints 0)
    let int2 := (atTokNextint next.cur).stored.getD (stack.ints 1)
    if int1 = 144 then decimalInt int1 else decimalInt int1 ++ 44 :: decimalInt int2

/-- The string is printed if the first integer is 144, and the integer if not. -/
def eng_ResponseGETUPLMN (stack : Stack) (content : List UInt8) : Option (List UInt8) :=
  (firstItem LARGE_ITEM_SIZE content).map fun item =>
    let next := atTokNextint (atTokStart (some item))
    let int1 := next.stored.getD (stack.ints 0)
    if int1 = 144 then nextStr (atTokNextint next.cur).cur else decimalInt int1

def eng_ResponseGETUPLMNLEN := eng_ResponseGETUPLMN

/-- `at_tok_nexthexint` into each of the variables, one after the other. -/
def nextHexInts : Cursor → List ℤ → List ℤ
  | _, [] => []
  | cur, v :: vars =>
      (atTokNexthexint cur).stored.getD v :: nextHexInts (atTokNexthexint cur).cur vars

def eng_ResponseSADC (stack : Stack) (content : List UInt8) : Option (List UInt8) :=
  (firstItem ITEM_SIZE content).map fun item =>
    List.intercalate [44] ((nextHexInts (atTokStart (some item))
      ((List.range 4).map stack.ints)).map fun n => 48 :: 120 :: hexInt n)

/-! ## Response functions for all of the lines -/

def eng_ResponseGetSPDGCNUM : SpResponse := ⟨false, 1, [0], []⟩

def textOfItems (size : ℕ) (f : List UInt8 → List UInt8) (content : List UInt8) :
    Option (List UInt8) :=
  (itemsOf size content).map fun items => items.flatMap f

def eng_ResponseSPID := textOfItems ITEM_SIZE fun item => nextStr (atTokStart (some item)) ++ [44]

def eng_ResponseCGMR := textOfItems ITEM_SIZE fun item => item ++ [44]

def eng_ResponsePLMN := textOfItems LARGE_ITEM_SIZE fun item => item ++ [32, 13, 10]

/-! ## The text for a command -/

/-- What a response function prints to `respose_data` is copied to where the lines were. -/
def resposeData (out : Option (List UInt8)) : Option (List UInt8) :=
  out.filter fun text => text.length < RESPOSE_DATA_SIZE

def finalResponse : List (List UInt8) := [ascii ['O', 'K'], ascii ['E', 'R', 'R', 'O', 'R']]

def isFinalResponse (line : List UInt8) : Bool := finalResponse.any fun p => p.isPrefixOf line

def EngAtCmd.response (stack : Stack) (data : List UInt8) : EngAtCmd → Option (List UInt8)
  | .requestModemVersion => firstContent data
  | .requestImei => firstContent data
  | .currentBand => intOfContent eng_ResponseCurrentBand stack data
  | .getArmlog => intOfContent eng_ResponseGetArmLog stack data
  | .getDsplog => intOfContent eng_ResponseGetArmLog stack data
  | .getAutoanswer => intOfContent eng_ResponseGetAutoAnswer stack data
  | .getSppsrate => resposeData (eng_ResponseGetSpPsrate.out stack.ints data)
  | .getSptest => resposeData (eng_ResponseSPTest.out stack.ints data)
  | .spid => resposeData (eng_ResponseSPID data)
  | .getSpfrq => resposeData (eng_ResponseSPFRQ.out stack.ints data)
  | .getSpdgcnum => resposeData (eng_ResponseGetSPDGCNUM.out stack.ints data)
  | .getSpdgcinfo => resposeData (eng_ResponseGetSPDGCINFO.out stack.ints data)
  | .getSpl1itrrswitch => resposeData (eng_ResponseGetSPL1 stack data)
  | .l1param => resposeData (eng_ResponseL1PARAM stack data)
  | .trrparam => resposeData (eng_ResponseTRRPARAM stack data)
  | .setTdmeasswth => resposeData (eng_ResponseTDMEASSWTH stack data)
  | .getTdmeasswth => resposeData (eng_ResponseGetTDMEASSWTH stack data)
  | .rrdmparam => resposeData (eng_ResponseRRDMPARAM stack data)
  | .smtimer => resposeData (eng_ResponseSMTIMER stack data)
  | .trrdcfeparam => resposeData (eng_ResponseTRRDCFEPARAM stack data)
  | .cimi => firstContent data
  | .mbcellid => resposeData (eng_ResponseMBCELLID data)
  | .mbau => resposeData (eng_ResponseMBAU data)
  | .euicc => resposeData (eng_ResponseEUICC stack data)
  | .cgreg => resposeData (eng_ResponseCGREG stack data)
  | .nohandleCmd => textAt data
  | .sysinfo => resposeData (eng_ResponseSYSINFO stack data)
  | .hver => resposeData (eng_ResponseHVER data)
  | .getSysconfig => resposeData (eng_ResponseGetSYSCONFIG stack data)
  | .spver => resposeData (eng_ResponseSPVER data)
  | .autoattach => intOfContent eng_ResponseCurrentAttach stack data
  | .getPdpact => firstContent data
  | .getUplmn => resposeData (eng_ResponseGETUPLMN stack data)
  | .getUplmnLen => resposeData (eng_ResponseGETUPLMNLEN stack data)
  | .setUplmn => resposeData (eng_ResponseSETUPLMN stack data)
  | .sadc => resposeData (eng_ResponseSADC stack data)
  | .cgmr => resposeData (eng_ResponseCGMR data)
  | .cced =>
      (resposeData (eng_ResponseCCED data)).map fun text =>
        if text.length ≤ 1 then ofAscii "No Network".toList else text
  | .l1mon => textAt data
  | .sfpl => resposeData (eng_ResponsePLMN data)
  | .sepl => resposeData (eng_ResponsePLMN data)
  | .getAssertMode => textAt data
  | .sgmr => textAt data
  | _ => none

def engAtCommandResponse (stack : Stack) (cmd : ℤ) (data : List UInt8) : Option (List UInt8) :=
  if isFinalResponse data then textAt data
  else (engAtCmds.lookup cmd).bind (EngAtCmd.response stack data)

/-! ## Texts that do not depend on the stack -/

/-- The text for the answer in `data` is `text`, whatever the stack holds. -/
def Settled (cmd : ℤ) (data text : List UInt8) : Prop :=
  ∀ stack, engAtCommandResponse stack cmd data = some text

theorem textAt_of_mem {memory : List UInt8} (h : 0 ∈ memory) :
    textAt memory = some (cstring memory) := if_pos h

theorem settled_of_final {data : List UInt8} (hfinal : isFinalResponse data = true)
    (hzero : 0 ∈ data) (cmd : ℤ) : Settled cmd data (cstring data) := by
  intro stack
  rw [engAtCommandResponse, if_pos hfinal, textAt_of_mem hzero]

theorem settled_of_response {cmd : ℤ} {c : EngAtCmd} {data text : List UInt8}
    (hfinal : isFinalResponse data = false) (hcmd : engAtCmds.lookup cmd = some c)
    (htext : ∀ stack, c.response stack data = some text) : Settled cmd data text := by
  intro stack
  rw [engAtCommandResponse, hfinal, if_neg Bool.false_ne_true, hcmd]
  exact htext stack

/-- An integer is printed from the answer exactly when there is a colon in the first line. -/
theorem intOfContent_settled_iff {content : List UInt8} :
    (∃ text, ∀ stack, intOfContent eng_ResponseOneInt stack content = some text) ↔
      ∃ data, firstContent content = some data ∧ atTokStart (some data) ≠ none := by
  cases hdata : firstContent content with
  | none =>
      refine iff_of_false ?_ (by simp)
      rintro ⟨text, htext⟩
      have hnone := htext ⟨fun _ => 0, []⟩
      rw [intOfContent, hdata] at hnone
      cases hnone
  | some data =>
      simp only [intOfContent, hdata, Option.map_some, Option.some.injEq, exists_eq_left',
        eng_ResponseOneInt]
      constructor
      · rintro ⟨text, htext⟩ hnone
        have hdigit : ∀ n : ℤ, decimalInt n = text := fun n => by
          have hn := htext ⟨fun _ => n, []⟩
          rwa [hnone] at hn
        exact absurd ((hdigit 0).trans (hdigit 1).symm) (by decide)
      · intro hcur
        obtain ⟨n, hn⟩ := Option.ne_none_iff_exists'.mp
          (mt atTokNextint_stored_eq_none_iff.mp hcur)
        exact ⟨decimalInt n, fun stack => by rw [hn, Option.getD_some]⟩

/-- `":1,2"` for `ENG_AT_GETSPPSRATE`, which prints three integers. -/
example : ¬ ∃ text, Settled 9 (answer [[':', '1', ',', '2']]) text := by
  rintro ⟨text, htext⟩
  have heq := (htext ⟨fun _ => 0, []⟩).trans (htext ⟨fun _ => 1, []⟩).symm
  exact absurd heq (by decide)

end Engcs

end Tarako
