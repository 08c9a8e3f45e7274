import Tarako.Lib.Hex
import Tarako.Lib.Lines
import Tarako.ModemControl.DownloadImage

/-!
# The list of the images

`get_modem_images_info` reads the table of the images from a file: a line names a path, a
length and an address. Every line loses its last character, which is taken for the newline;
the numbers lose the two characters of their `0x` and are read by `strtol` where `long` has
32 bits. A length or an address of zero makes the path the name of the UART device, and the
entry of the table is used again.
-/

namespace Tarako

namespace ModemControl

open Text Hex

def LINE_SIZE : ℕ := 256

/-- The entries of `download_image_info`. -/
def MAX_ITEM : ℕ := 7

/-- The statics that the images are kept in. -/
structure ModemImages where
  downloadImageInfo : Buffer ImageInfo MAX_ITEM
  uartDev : Option (List UInt8)
  modemImagesCount : ℕ

def isDelim (b : UInt8) : Bool := b == 32 || b == 9

def inToken (b : UInt8) : Bool := !isDelim b && b != 0

/-- A call of `strtok_r`: what is skipped, the token, and the memory from its end on. -/
def strtok (memory : List UInt8) : Option (List UInt8 × List UInt8 × List UInt8) :=
  let rest := memory.dropWhile isDelim
  let token := rest.takeWhile inToken
  if token = [] then none else some (memory.takeWhile isDelim, token, rest.drop token.length)

/-- The loop of `get_modem_images_info`. -/
structure ImagesInfo where
  line : Buffer UInt8 LINE_SIZE
  info : Buffer ImageInfo MAX_ITEM
  uartDev : Option (List UInt8)
  imagesCount : ℕ

namespace ImagesInfo

/-- The last character of what `fgets` has read becomes a NUL. -/
def cutLine (line : Buffer UInt8 LINE_SIZE) (read : List UInt8) :
    Option (Buffer UInt8 LINE_SIZE) := do
  let line ← line.write? 0 (read ++ [0])
  let text := cstring line.bytes
  if text = [] then none else return line.set (text.length - 1) 0

def store (s : ImagesInfo) (info : ImageInfo) : Option (ImagesInfo × Bool) := do
  let table ← s.info.write? s.imagesCount [info]
  if info.address = 0 ∨ info.imageSize = 0 then
    return ({ s with info := table, uartDev := info.imagePath }, s.imagesCount < MAX_ITEM)
  else
    return ({ s with info := table, imagesCount := s.imagesCount + 1 },
      s.imagesCount + 1 < MAX_ITEM)

def parseLine (s : ImagesInfo) : Option (ImagesInfo × Bool) :=
  if s.line.bytes.head? = some 35 ∨ s.line.bytes.head? = some 0 then some (s, true)
  else
    match strtok s.line.bytes with
    | none => some (s, false)
    | some (start, filename, behind) =>
        match strtok behind with
        | none => some (s, false)
        | some (gap, length, behind) =>
            match strtok behind with
            | none => some (s, false)
            | some (gap', address, behind) =>
                -- the tokens end with the NULs that have been put behind them
                let addressPtr := address ++ 0 :: behind.tail
                let lengthPtr := length ++ 0 :: (gap'.tail ++ addressPtr)
                let line := s.line.load (start ++ filename ++ 0 :: (gap.tail ++ lengthPtr))
                { s with line }.store
                  ⟨some filename, Int32.ofInt (strtol16 (cstring (lengthPtr.drop 2))),
                    (Int32.ofInt (strtol16 (cstring (addressPtr.drop 2)))).toUInt32⟩

def turn (s : ImagesInfo) (read : List UInt8) : Option (ImagesInfo × Bool) :=
  (cutLine s.line read).bind fun line => { s with line }.parseLine

def parse (s : ImagesInfo) : List (List UInt8) → Option ImagesInfo
  | [] => some s
  | read :: reads => (s.turn read).bind fun r => if r.2 then r.1.parse reads else some r.1

end ImagesInfo

/-- `get_modem_images_info`; the file is `none` when it cannot be opened, and `line` holds
anything at first. -/
def getModemImagesInfo (file : Option (List UInt8)) (line : Buffer UInt8 LINE_SIZE)
    (m : ModemImages) : Option (ModemImages × ℕ) :=
  match file with
  | none => some (m, 0)
  | some text =>
      (ImagesInfo.parse ⟨line, m.downloadImageInfo, m.uartDev, 0⟩
        (Lines.fgets (LINE_SIZE - 1) text)).map fun s =>
          (⟨s.info, s.uartDev, s.imagesCount⟩, s.imagesCount)

/-! ## The lines of the file -/

/-- A line for an image, or for the UART device: a path and two hexadecimal numbers. -/
structure Entry where
  path : List UInt8
  gap : List UInt8
  length : List UInt8
  gap' : List UInt8
  address : List UInt8
  path_ne_nil : path ≠ []
  path_spec : ∀ b ∈ path, b ≠ 0 ∧ b ≠ Lines.newline ∧ isDelim b = false
  /-- The line is no comment. -/
  head_path : path.head? ≠ some 35
  gap_spec : gap ≠ [] ∧ ∀ b ∈ gap, isDelim b
  gap'_spec : gap' ≠ [] ∧ ∀ b ∈ gap', isDelim b
  length_spec : length ≠ [] ∧ (∀ b ∈ length, isHexDigit b) ∧ value 0 length < 2 ^ 32
  address_spec : address ≠ [] ∧ (∀ b ∈ address, isHexDigit b) ∧ value 0 address < 2 ^ 32

namespace Entry

variable (e : Entry)

def textWith (address : List UInt8) : List UInt8 :=
  e.path ++ (e.gap ++ (48 :: 120 :: e.length ++ (e.gap' ++ 48 :: 120 :: address)))

def image : ImageInfo :=
  ⟨some e.path, Int32.ofNat (value 0 e.length), UInt32.ofNat (value 0 e.address)⟩

def storedWith (address : List UInt8) : ImageInfo :=
  ⟨some e.path, Int32.ofNat (min (2 ^ 31 - 1) (value 0 e.length)),
    (Int32.ofNat (min (2 ^ 31 - 1) (value 0 address))).toUInt32⟩

def Nonzero : Prop := value 0 e.length ≠ 0 ∧ value 0 e.address ≠ 0

instance : Decidable e.Nonzero := inferInstanceAs (Decidable (_ ∧ _))

end Entry

inductive ImagesLine
  | comment (text : List UInt8) (h : ∀ b ∈ text, b ≠ 0 ∧ b ≠ Lines.newline)
  | blank (text : List UInt8) (h : ∀ b ∈ text, isDelim b)
  | entry (e : Entry)

namespace ImagesLine

def text : ImagesLine → List UInt8
  | comment text _ => 35 :: text
  | blank text _ => text
  | entry e => e.textWith e.address

def image? : ImagesLine → Option ImageInfo
  | entry e => if e.Nonzero then some e.image else none
  | _ => none

def stored? : ImagesLine → Option ImageInfo
  | entry e => if e.Nonzero then some (e.storedWith e.address) else none
  | _ => none

/-- What is stored for a last line without a newline, whose last character is cut. -/
def cut? : ImagesLine → Option ImageInfo
  | entry e =>
      if value 0 e.length ≠ 0 ∧ value 0 e.address.dropLast ≠ 0 then
        some (e.storedWith e.address.dropLast)
      else none
  | _ => none

/-- A line of nothing but spaces and tabs, one at least. -/
def IsWhite : ImagesLine → Prop
  | blank text _ => text ≠ []
  | _ => False

instance : DecidablePred IsWhite
  | comment _ _ => inferInstanceAs (Decidable False)
  | blank _ _ => inferInstanceAs (Decidable (_ ≠ _))
  | entry _ => inferInstanceAs (Decidable False)

end ImagesLine

theorem ImagesLine.IsWhite.none {l : ImagesLine} (h : l.IsWhite) :
    l.image? = none ∧ l.stored? = none := by
  cases l with
  | comment text _ => exact ⟨rfl, rfl⟩
  | blank text _ => exact ⟨rfl, rfl⟩
  | entry e => exact h.elim

theorem ne_of_isDelim {b : UInt8} (h : isDelim b) : b ≠ 0 ∧ b ≠ Lines.newline := by
  constructor
  · rintro rfl
    exact absurd h (by decide)
  · rintro rfl
    exact absurd h (by decide)

theorem ne_of_isHexDigit {b : UInt8} (h : isHexDigit b) : b ≠ 0 ∧ b ≠ Lines.newline := by
  constructor
  · rintro rfl
    exact absurd h (by decide)
  · rintro rfl
    exact absurd h (by decide)

theorem Entry.textWith_spec (e : Entry) {address : List UInt8}
    (haddress : ∀ b ∈ address, isHexDigit b) :
    ∀ b ∈ e.textWith address, b ≠ 0 ∧ b ≠ Lines.newline := by
  have hnumber : ∀ digits : List UInt8, (∀ b ∈ digits, isHexDigit b) →
      ∀ b ∈ 48 :: 120 :: digits, b ≠ 0 ∧ b ≠ Lines.newline := by
    intro digits hdigits
    rw [List.forall_mem_cons, List.forall_mem_cons]
    exact ⟨by decide, by decide, fun b hb => ne_of_isHexDigit (hdigits b hb)⟩
  intro b hb
  simp only [textWith, List.mem_append] at hb
  obtain hb | hb | hb | hb | hb := hb
  · exact ⟨(e.path_spec b hb).1, (e.path_spec b hb).2.1⟩
  · exact ne_of_isDelim (e.gap_spec.2 b hb)
  · exact hnumber _ e.length_spec.2.1 b hb
  · exact ne_of_isDelim (e.gap'_spec.2 b hb)
  · exact hnumber _ haddress b hb

theorem ImagesLine.text_spec (l : ImagesLine) : ∀ b ∈ l.text, b ≠ 0 ∧ b ≠ Lines.newline := by
  cases l with
  | comment text h => exact List.forall_mem_cons.mpr ⟨by decide, h⟩
  | blank text h => exact fun b hb => ne_of_isDelim (h b hb)
  | entry e => exact e.textWith_spec e.address_spec.2.1

/-- The file: lines with their newlines, and perhaps a last one without. -/
def fileText (lines : List ImagesLine) (last : Option ImagesLine) : List UInt8 :=
  lines.flatMap (fun l => l.text ++ [Lines.newline]) ++ last.elim [] ImagesLine.text

def images (lines : List ImagesLine) : List ImageInfo := lines.filterMap ImagesLine.image?

/-! ## One line -/

theorem strtok_token {gap token : List UInt8} (hgap : ∀ b ∈ gap, isDelim b) (hne : token ≠ [])
    (htoken : ∀ b ∈ token, b ≠ 0 ∧ isDelim b = false) {c : UInt8} (hc : isDelim c ∨ c = 0)
    (behind : List UInt8) :
    strtok (gap ++ (token ++ c :: behind)) = some (gap, token, c :: behind) := by
  obtain ⟨b, t, rfl⟩ := List.exists_cons_of_ne_nil hne
  have hb : ¬ isDelim b = true := by
    rw [(htoken b (List.mem_cons_self ..)).2]
    exact Bool.false_ne_true
  have hskip : (gap ++ (b :: t ++ c :: behind)).dropWhile isDelim = b :: t ++ c :: behind := by
    rw [List.dropWhile_append_of_pos hgap, List.cons_append, List.dropWhile_cons_of_neg hb]
  have hgap' : (gap ++ (b :: t ++ c :: behind)).takeWhile isDelim = gap := by
    rw [List.takeWhile_append_of_pos hgap, List.cons_append, List.takeWhile_cons_of_neg hb,
      List.append_nil]
  have hend : ¬ inToken c = true := by
    rcases hc with hc | rfl
    · simp [inToken, hc]
    · simp [inToken]
  have htake : (b :: t ++ c :: behind).takeWhile inToken = b :: t := by
    rw [List.takeWhile_append_of_pos, List.takeWhile_cons_of_neg hend, List.append_nil]
    intro x hx
    simp [inToken, htoken x hx]
  rw [strtok]
  simp only [hskip, htake, hgap', if_neg (List.cons_ne_nil b t), List.drop_left]

theorem strtok_blank {gap : List UInt8} (hgap : ∀ b ∈ gap, isDelim b) (behind : List UInt8) :
    strtok (gap ++ 0 :: behind) = none := by
  have hzero : ¬ isDelim 0 = true := by decide
  have hend : ¬ inToken 0 = true := by decide
  have hskip : (gap ++ 0 :: behind).dropWhile isDelim = 0 :: behind := by
    rw [List.dropWhile_append_of_pos hgap, List.dropWhile_cons_of_neg hzero]
  rw [strtok]
  simp only [hskip, List.takeWhile_cons_of_neg hend, if_true]

theorem inToken_number {digits : List UInt8} (h : ∀ b ∈ digits, isHexDigit b) :
    ∀ b ∈ 48 :: 120 :: digits, b ≠ 0 ∧ isDelim b = false := by
  intro b hb
  rcases List.mem_cons.mp hb with rfl | hb
  · decide
  · rcases List.mem_cons.mp hb with rfl | hb
    · decide
    · have hdigit := h b hb
      refine ⟨?_, ?_⟩
      · rintro rfl
        exact absurd hdigit (by decide)
      · by_contra hdelim
        simp only [isDelim, Bool.not_eq_false, Bool.or_eq_true, beq_iff_eq] at hdelim
        rcases hdelim with rfl | rfl
        · exact absurd hdigit (by decide)
        · exact absurd hdigit (by decide)

theorem strtol16_number {digits : List UInt8} (h : ∀ b ∈ digits, isHexDigit b)
    (behind : List UInt8) :
    Int32.ofInt (strtol16 (cstring ((48 :: 120 :: digits ++ 0 :: behind).drop 2))) =
      Int32.ofNat (min (2 ^ 31 - 1) (value 0 digits)) := by
  have hzero : 0 ∉ digits := fun hmem => absurd (h 0 hmem) (by decide)
  have hstring : cstring ((48 :: 120 :: digits ++ 0 :: behind).drop 2) = digits := by
    change cstring (digits ++ 0 :: behind) = digits
    rw [cstring_append_of_not_mem hzero, cstring, List.takeWhile_cons_of_neg (by simp),
      List.append_nil]
  rw [hstring, strtol16_of_digits h]
  rfl

namespace ImagesInfo

theorem cutLine_concat (line : Buffer UInt8 LINE_SIZE) {text : List UInt8} (htext : 0 ∉ text)
    {c : UInt8} (hc : c ≠ 0) (hfits : text.length + 2 ≤ LINE_SIZE) :
    ∃ line' behind, cutLine line (text ++ [c]) = some line' ∧
      line'.bytes = text ++ 0 :: behind := by
  have hroom : 0 + (text ++ [c] ++ [0]).length ≤ LINE_SIZE := by
    simp only [List.length_append, List.length_singleton]
    omega
  have hwrite : line.write? 0 (text ++ [c] ++ [0]) = some (line.write 0 _ hroom) :=
    dif_pos hroom
  obtain ⟨behind, hbytes⟩ : ∃ behind,
      (line.write 0 (text ++ [c] ++ [0]) hroom).bytes = text ++ c :: 0 :: behind :=
    ⟨_, by
      change Splice.splice line.bytes 0 (text ++ [c] ++ [0]) = _
      rw [Splice.splice, List.take_zero, List.nil_append, List.append_assoc, List.append_assoc]
      rfl⟩
  have hstring : cstring (text ++ c :: 0 :: behind) = text ++ [c] := by
    rw [cstring_append_of_not_mem htext, cstring, List.takeWhile_cons_of_pos (by simp [hc]),
      List.takeWhile_cons_of_neg (by simp)]
  refine ⟨(line.write 0 _ hroom).set text.length 0, 0 :: behind, ?_, ?_⟩
  · have hne : text ++ [c] ≠ [] := by simp
    rw [cutLine, hwrite]
    simp only [Option.bind_eq_bind, Option.bind_some, hbytes, hstring, if_neg hne, Option.pure_def,
      List.length_append, List.length_singleton, Nat.add_sub_cancel]
  · change List.set _ _ _ = _
    rw [hbytes, List.set_append_right _ _ (Nat.le_refl _), Nat.sub_self]
    rfl

theorem parseLine_skipped {s : ImagesInfo} (h : s.line.bytes.head? = some 35 ∨
    s.line.bytes.head? = some 0) : s.parseLine = some (s, true) := if_pos h

theorem parseLine_white {s : ImagesInfo} {gap behind : List UInt8}
    (hline : s.line.bytes = gap ++ 0 :: behind) (hgap : ∀ b ∈ gap, isDelim b) (hne : gap ≠ []) :
    s.parseLine = some (s, false) := by
  obtain ⟨b, t, rfl⟩ := List.exists_cons_of_ne_nil hne
  have hb := hgap b (List.mem_cons_self ..)
  have hhead : ¬ (s.line.bytes.head? = some 35 ∨ s.line.bytes.head? = some 0) := by
    rw [hline]
    rintro (h | h)
    · obtain rfl : b = 35 := Option.some.inj h
      exact absurd hb (by decide)
    · obtain rfl : b = 0 := Option.some.inj h
      exact absurd hb (by decide)
  rw [parseLine, if_neg hhead, hline, strtok_blank hgap]

theorem parseLine_entry {s : ImagesInfo} {e : Entry} {address behind : List UInt8}
    (haddress : ∀ b ∈ address, isHexDigit b)
    (hline : s.line.bytes = e.textWith address ++ 0 :: behind) :
    ∃ line, s.parseLine = { s with line }.store (e.storedWith address) := by
  have hlength := e.length_spec.2.1
  obtain ⟨b, t, hpath⟩ := List.exists_cons_of_ne_nil e.path_ne_nil
  obtain ⟨g, gap, hgap⟩ := List.exists_cons_of_ne_nil e.gap_spec.1
  obtain ⟨g', gap', hgap'⟩ := List.exists_cons_of_ne_nil e.gap'_spec.1
  have hg : isDelim g := e.gap_spec.2 g (by rw [hgap]; exact List.mem_cons_self ..)
  have hg' : isDelim g' := e.gap'_spec.2 g' (by rw [hgap']; exact List.mem_cons_self ..)
  have hhead : ¬ (s.line.bytes.head? = some 35 ∨ s.line.bytes.head? = some 0) := by
    have hb := e.path_spec b (by rw [hpath]; exact List.mem_cons_self ..)
    have hcomment := e.head_path
    rw [hpath] at hcomment
    rw [hline, Entry.textWith, hpath]
    rintro (h | h)
    · exact hcomment h
    · exact hb.1 (Option.some.inj h)
  have hfirst : strtok s.line.bytes = some ([], e.path, g :: (gap ++
      (48 :: 120 :: e.length ++ (e.gap' ++ (48 :: 120 :: address ++ 0 :: behind))))) := by
    have htoken := strtok_token (show ∀ b ∈ [], isDelim b by simp) e.path_ne_nil
      (fun b hb => ⟨(e.path_spec b hb).1, (e.path_spec b hb).2.2⟩) (.inl hg) (gap ++
      (48 :: 120 :: e.length ++ (e.gap' ++ (48 :: 120 :: address ++ 0 :: behind))))
    rw [hline, Entry.textWith, hgap]
    simp only [List.append_assoc, List.cons_append, List.nil_append] at htoken ⊢
    exact htoken
  have hsecond : strtok (g :: (gap ++
      (48 :: 120 :: e.length ++ (e.gap' ++ (48 :: 120 :: address ++ 0 :: behind))))) =
      some (e.gap, 48 :: 120 :: e.length,
        g' :: (gap' ++ (48 :: 120 :: address ++ 0 :: behind))) := by
    have htoken := strtok_token e.gap_spec.2 (List.cons_ne_nil 48 (120 :: e.length))
      (inToken_number hlength) (.inl hg') (gap' ++ (48 :: 120 :: address ++ 0 :: behind))
    rw [hgap']
    rw [hgap] at htoken ⊢
    exact htoken
  have hthird : strtok (g' :: (gap' ++ (48 :: 120 :: address ++ 0 :: behind))) =
      some (e.gap', 48 :: 120 :: address, 0 :: behind) := by
    have htoken := strtok_token e.gap'_spec.2 (List.cons_ne_nil 48 (120 :: address))
      (inToken_number haddress) (.inr rfl) behind
    rw [hgap'] at htoken ⊢
    exact htoken
  rw [parseLine, if_neg hhead, hfirst]
  simp only [hsecond, hthird, strtol16_number hlength, strtol16_number haddress]
  exact ⟨_, rfl⟩

/-- More images are stored behind those of `s`. -/
structure Grows (s s' : ImagesInfo) (more : List ImageInfo) : Prop where
  imagesCount : s'.imagesCount = s.imagesCount + more.length
  info : s'.info.bytes.take s'.imagesCount = s.info.bytes.take s.imagesCount ++ more

theorem store_zero {s : ImagesInfo} (hcount : s.imagesCount < MAX_ITEM) {info : ImageInfo}
    (hinfo : info.address = 0 ∨ info.imageSize = 0) :
    ∃ s', s.store info = some (s', true) ∧ s.Grows s' [] := by
  have hfits : s.imagesCount + [info].length ≤ MAX_ITEM := hcount
  have hwrite : s.info.write? s.imagesCount [info] = some (s.info.write _ _ hfits) :=
    dif_pos hfits
  refine ⟨{ s with info := s.info.write _ _ hfits, uartDev := info.imagePath }, ?_, rfl, ?_⟩
  · rw [store, hwrite, Option.bind_eq_bind, Option.bind_some, if_pos hinfo,
      decide_eq_true hcount]
    rfl
  · rw [List.append_nil]
    exact Buffer.take_write_of_le hfits (Nat.le_refl _)

theorem store_image {s : ImagesInfo} (hcount : s.imagesCount < MAX_ITEM) {info : ImageInfo}
    (hinfo : ¬ (info.address = 0 ∨ info.imageSize = 0)) :
    ∃ s', s.store info = some (s', decide (s.imagesCount + 1 < MAX_ITEM)) ∧
      s.Grows s' [info] := by
  have hfits : s.imagesCount + [info].length ≤ MAX_ITEM := hcount
  have hwrite : s.info.write? s.imagesCount [info] = some (s.info.write _ _ hfits) :=
    dif_pos hfits
  refine ⟨{ s with info := s.info.write _ _ hfits, imagesCount := s.imagesCount + 1 }, ?_, rfl,
    ?_⟩
  · rw [store, hwrite, Option.bind_eq_bind, Option.bind_some, if_neg hinfo]
    rfl
  · have hle : s.imagesCount ≤ s.info.bytes.length := by
      rw [s.info.size_eq]
      exact Nat.le_of_lt hcount
    exact Splice.take_splice (d := [info]) hle

theorem ofNat_eq_zero_iff {n : ℕ} (hn : n < 2 ^ 31) : Int32.ofNat n = 0 ↔ n = 0 := by
  rw [← Int32.toInt_inj, Int32.toInt_ofNat_of_lt hn]
  exact Int.natCast_eq_zero

theorem storedWith_zero_iff {e : Entry} {address : List UInt8} :
    (e.storedWith address).address = 0 ∨ (e.storedWith address).imageSize = 0 ↔
      ¬ (value 0 e.length ≠ 0 ∧ value 0 address ≠ 0) := by
  have hunsigned : ∀ x : Int32, x.toUInt32 = 0 ↔ x = 0 := by
    intro x
    constructor
    · intro h
      simpa using congrArg UInt32.toInt32 h
    · rintro rfl
      rfl
  have hlength := ofNat_eq_zero_iff (n := min (2 ^ 31 - 1) (value 0 e.length)) (by omega)
  have haddress := ofNat_eq_zero_iff (n := min (2 ^ 31 - 1) (value 0 address)) (by omega)
  rw [Entry.storedWith, hunsigned, hlength, haddress]
  omega

theorem turn_concat (s : ImagesInfo) {text : List UInt8} (htext : 0 ∉ text) {c : UInt8}
    (hc : c ≠ 0) (hfits : text.length + 2 ≤ LINE_SIZE) :
    ∃ line behind, s.turn (text ++ [c]) = { s with line }.parseLine ∧
      line.bytes = text ++ 0 :: behind := by
  obtain ⟨line, behind, hcut, hline⟩ := cutLine_concat s.line htext hc hfits
  exact ⟨line, behind, by rw [turn, hcut, Option.bind_some], hline⟩

/-- A turn with a line for an image, with any digits for its address. -/
theorem turn_entry {s : ImagesInfo} (hcount : s.imagesCount < MAX_ITEM) {e : Entry}
    {address : List UInt8} (haddress : ∀ b ∈ address, isHexDigit b) {c : UInt8} (hc : c ≠ 0)
    (hfits : (e.textWith address).length + 2 ≤ LINE_SIZE) :
    ∃ s' more, s.turn (e.textWith address ++ [c]) = some (s', more) ∧
      s.Grows s' (if value 0 e.length ≠ 0 ∧ value 0 address ≠ 0 then
        some (e.storedWith address) else none).toList ∧
      more = decide (s'.imagesCount < MAX_ITEM) := by
  obtain ⟨line, behind, hturn, hline⟩ :=
    s.turn_concat (fun h => (e.textWith_spec haddress 0 h).1 rfl) hc hfits
  obtain ⟨line', hparse⟩ := parseLine_entry (s := { s with line }) haddress hline
  rw [hparse] at hturn
  by_cases hzero : value 0 e.length ≠ 0 ∧ value 0 address ≠ 0
  · obtain ⟨s', hstore, hgrows⟩ := store_image (s := { s with line := line' }) hcount
      (fun h => storedWith_zero_iff.mp h hzero)
    have hcount' : s'.imagesCount = s.imagesCount + 1 := hgrows.imagesCount
    rw [if_pos hzero]
    exact ⟨s', _, hturn.trans hstore, ⟨hgrows.imagesCount, hgrows.info⟩, by rw [hcount']⟩
  · obtain ⟨s', hstore, hgrows⟩ := store_zero (s := { s with line := line' }) hcount
      (storedWith_zero_iff.mpr hzero)
    have hcount' : s'.imagesCount = s.imagesCount := hgrows.imagesCount
    rw [if_neg hzero]
    exact ⟨s', _, hturn.trans hstore, ⟨hgrows.imagesCount, hgrows.info⟩,
      by rw [hcount', decide_eq_true hcount]⟩

theorem turn_line {s : ImagesInfo} (hcount : s.imagesCount < MAX_ITEM) {l : ImagesLine}
    (hfits : l.text.length + 2 ≤ LINE_SIZE) :
    ∃ s' more, s.turn (l.text ++ [Lines.newline]) = some (s', more) ∧
      s.Grows s' l.stored?.toList ∧
      more = (!decide l.IsWhite && decide (s'.imagesCount < MAX_ITEM)) := by
  have hnewline : Lines.newline ≠ 0 := by decide
  have htext : 0 ∉ l.text := fun h => (l.text_spec 0 h).1 rfl
  cases l with
  | comment text h =>
      obtain ⟨line, behind, hturn, hline⟩ :=
        s.turn_concat htext hnewline hfits
      refine ⟨{ s with line }, true, ?_, ⟨rfl, (List.append_nil _).symm⟩, ?_⟩
      · rw [hturn, parseLine_skipped (.inl _)]
        rw [hline]
        rfl
      · exact (decide_eq_true hcount).symm
  | blank text h =>
      obtain ⟨line, behind, hturn, hline⟩ :=
        s.turn_concat htext hnewline hfits
      by_cases hne : text = []
      · subst hne
        refine ⟨{ s with line }, true, ?_, ⟨rfl, (List.append_nil _).symm⟩, ?_⟩
        · rw [hturn, parseLine_skipped (.inr _)]
          rw [hline]
          rfl
        · exact (decide_eq_true hcount).symm
      · refine ⟨{ s with line }, false, ?_, ⟨rfl, (List.append_nil _).symm⟩, ?_⟩
        · rw [hturn, parseLine_white hline h hne]
        · have hwhite : (ImagesLine.blank text h).IsWhite := hne
          rw [decide_eq_true hwhite]
          rfl
  | entry e =>
      obtain ⟨s', more, hturn, hgrows, hmore⟩ :=
        turn_entry hcount e.address_spec.2.1 hnewline hfits
      exact ⟨s', more, hturn, hgrows, hmore⟩

theorem turn_last {s : ImagesInfo} (hcount : s.imagesCount < MAX_ITEM) {l : ImagesLine}
    (hne : l.text ≠ []) (hfits : l.text.length + 1 ≤ LINE_SIZE) :
    ∃ s' more, s.turn l.text = some (s', more) ∧ s.Grows s' l.cut?.toList := by
  obtain ⟨text, c, htext⟩ : ∃ text c, l.text = text ++ [c] :=
    ⟨l.text.dropLast, l.text.getLast hne, (List.dropLast_append_getLast hne).symm⟩
  have hmem : ∀ b ∈ text ++ [c], b ≠ 0 := fun b hb => (l.text_spec b (htext ▸ hb)).1
  have hzero : 0 ∉ text := fun h => hmem 0 (List.mem_append_left _ h) rfl
  have hc : c ≠ 0 := hmem c (List.mem_append_right _ (List.mem_singleton_self c))
  have hroom : text.length + 2 ≤ LINE_SIZE := by
    rw [htext, List.length_append, List.length_singleton] at hfits
    exact hfits
  cases l with
  | comment rest h =>
      obtain ⟨line, behind, hturn, hline⟩ := s.turn_concat hzero hc hroom
      refine ⟨{ s with line }, true, ?_, rfl, (List.append_nil _).symm⟩
      rw [htext, hturn, parseLine_skipped]
      change line.bytes.head? = some 35 ∨ line.bytes.head? = some 0
      rw [hline]
      cases text with
      | nil => exact .inr rfl
      | cons b text =>
          obtain ⟨rfl, -⟩ := List.cons.inj htext
          exact .inl rfl
  | blank rest h =>
      obtain ⟨line, behind, hturn, hline⟩ := s.turn_concat hzero hc hroom
      by_cases hnil : text = []
      · subst hnil
        refine ⟨{ s with line }, true, ?_, rfl, (List.append_nil _).symm⟩
        rw [htext, hturn, parseLine_skipped (.inr _)]
        rw [hline]
        rfl
      · refine ⟨{ s with line }, false, ?_, rfl, (List.append_nil _).symm⟩
        have hgap : ∀ b ∈ text, isDelim b := fun b hb =>
          h b (by
            change b ∈ (ImagesLine.blank rest h).text
            rw [htext]
            exact List.mem_append_left _ hb)
        rw [htext, hturn, parseLine_white hline hgap hnil]
  | entry e =>
      have haddress : e.address = e.address.dropLast ++ [e.address.getLast e.address_spec.1] :=
        (List.dropLast_append_getLast _).symm
      have hsplit : (ImagesLine.entry e).text =
          e.textWith e.address.dropLast ++ [e.address.getLast e.address_spec.1] := by
        change e.textWith e.address = _
        conv_lhs => rw [haddress]
        simp only [Entry.textWith, List.append_assoc, List.cons_append]
      have hlast := e.address_spec.2.1 _ (List.getLast_mem e.address_spec.1)
      rw [hsplit, List.length_append, List.length_singleton] at hfits
      obtain ⟨s', more, hturn, hgrows, -⟩ := turn_entry hcount
        (fun b hb => e.address_spec.2.1 b (List.dropLast_subset _ hb))
        (ne_of_isHexDigit hlast).1 hfits
      exact ⟨s', more, hsplit ▸ hturn, hgrows⟩

/-! ## The whole file -/

/-- What a file leaves in the table when there is room for `room` images: the entries up to a
line of white space. -/
def kept : ℕ → List ImagesLine → Option ImagesLine → List ImageInfo
  | 0, _, _ => []
  | _ + 1, [], last => (last.bind ImagesLine.cut?).toList
  | room + 1, l :: lines, last =>
      if l.IsWhite then []
      else
        match l.stored? with
        | none => kept (room + 1) lines last
        | some info => info :: kept room lines last

/-- The line that `fgets` reads at the end of a file without a newline there. -/
def lastReads (last : Option ImagesLine) : List (List UInt8) :=
  (last.map ImagesLine.text).toList.filter (· ≠ [])

theorem Grows.trans {s s' s'' : ImagesInfo} {more more' : List ImageInfo}
    (h : s.Grows s' more) (h' : s'.Grows s'' more') : s.Grows s'' (more ++ more') where
  imagesCount := by rw [h'.imagesCount, h.imagesCount, List.length_append, Nat.add_assoc]
  info := by rw [h'.info, h.info, List.append_assoc]

theorem parse_last {s : ImagesInfo} (hcount : s.imagesCount < MAX_ITEM)
    {last : Option ImagesLine} (hlast : ∀ l ∈ last, l.text.length + 1 ≤ LINE_SIZE) :
    ∃ s', s.parse (lastReads last) = some s' ∧ s.Grows s' (last.bind ImagesLine.cut?).toList := by
  cases last with
  | none => exact ⟨s, rfl, rfl, (List.append_nil _).symm⟩
  | some l =>
      by_cases hne : l.text = []
      · have hreads : lastReads (some l) = [] := by simp [lastReads, hne]
        have hcut : l.cut? = none := by
          cases l with
          | comment text h => rfl
          | blank text h => rfl
          | entry e => exact absurd (List.append_eq_nil_iff.mp hne).1 e.path_ne_nil
        rw [hreads, Option.bind_some, hcut]
        exact ⟨s, rfl, rfl, (List.append_nil _).symm⟩
      · have hreads : lastReads (some l) = [l.text] := by simp [lastReads, hne]
        obtain ⟨s', more, hturn, hgrows⟩ := turn_last hcount hne (hlast l rfl)
        refine ⟨s', ?_, hgrows⟩
        rw [hreads, parse, hturn]
        cases more <;> rfl

theorem parse_spec {last : Option ImagesLine}
    (hlast : ∀ l ∈ last, l.text.length + 1 ≤ LINE_SIZE) (lines : List ImagesLine) :
    ∀ s : ImagesInfo, s.imagesCount < MAX_ITEM →
      (∀ l ∈ lines, l.text.length + 2 ≤ LINE_SIZE) →
      ∃ s', s.parse (lines.map (fun l => l.text ++ [Lines.newline]) ++ lastReads last) = some s' ∧
        s.Grows s' (kept (MAX_ITEM - s.imagesCount) lines last) := by
  induction lines with
  | nil =>
      intro s hcount _
      obtain ⟨room, hroom⟩ : ∃ room, MAX_ITEM - s.imagesCount = room + 1 :=
        ⟨MAX_ITEM - s.imagesCount - 1, by omega⟩
      rw [hroom]
      exact parse_last hcount hlast
  | cons l lines ih =>
      intro s hcount hlines
      obtain ⟨hl, hlines⟩ := List.forall_mem_cons.mp hlines
      obtain ⟨room, hroom⟩ : ∃ room, MAX_ITEM - s.imagesCount = room + 1 :=
        ⟨MAX_ITEM - s.imagesCount - 1, by omega⟩
      obtain ⟨s₁, more, hturn, hgrows, hmore⟩ := turn_line hcount hl
      rw [hroom, List.map_cons, List.cons_append, parse, hturn, Option.bind_some, hmore, kept]
      by_cases hwhite : l.IsWhite
      · rw [hwhite.none.2] at hgrows
        rw [decide_eq_true hwhite, if_pos hwhite]
        exact ⟨s₁, rfl, hgrows⟩
      · rw [decide_eq_false hwhite, if_neg hwhite, Bool.not_false, Bool.true_and]
        cases hstored : l.stored? with
        | none =>
            rw [hstored] at hgrows
            have hcount₁ : s₁.imagesCount = s.imagesCount := hgrows.imagesCount
            obtain ⟨s', hparse, hgrows'⟩ := ih s₁ (hcount₁ ▸ hcount) hlines
            rw [hcount₁, hroom] at hgrows'
            rw [hcount₁, decide_eq_true hcount]
            exact ⟨s', hparse, hgrows.trans hgrows'⟩
        | some info =>
            rw [hstored] at hgrows
            have hcount₁ : s₁.imagesCount = s.imagesCount + 1 := hgrows.imagesCount
            have hroom₁ : MAX_ITEM - s₁.imagesCount = room := by omega
            by_cases hmore₁ : s₁.imagesCount < MAX_ITEM
            · obtain ⟨s', hparse, hgrows'⟩ := ih s₁ hmore₁ hlines
              rw [hroom₁] at hgrows'
              rw [decide_eq_true hmore₁]
              exact ⟨s', hparse, hgrows.trans hgrows'⟩
            · have hfull : room = 0 := by omega
              have hnil : kept 0 lines last = [] := by rw [kept]
              rw [decide_eq_false hmore₁, hfull, hnil]
              exact ⟨s₁, rfl, hgrows⟩

end ImagesInfo

theorem fgets_fileText {lines : List ImagesLine} {last : Option ImagesLine}
    (hlines : ∀ l ∈ lines, l.text.length + 2 ≤ LINE_SIZE)
    (hlast : ∀ l ∈ last, l.text.length + 1 ≤ LINE_SIZE) :
    Lines.fgets (LINE_SIZE - 1) (fileText lines last) =
      lines.map (fun l => l.text ++ [Lines.newline]) ++ ImagesInfo.lastReads last := by
  have hnewline : ∀ l : ImagesLine, Lines.newline ∉ l.text :=
    fun l h => (l.text_spec _ h).2 rfl
  induction lines with
  | nil =>
      cases last with
      | none => rfl
      | some l =>
          have hl := hlast l rfl
          by_cases hne : l.text = []
          · simp [fileText, ImagesInfo.lastReads, hne, Lines.fgets, Lines.fgetsFrom]
          · have hread : Lines.fgets (LINE_SIZE - 1) l.text = [l.text] :=
              Lines.fgets_last (hnewline l) hne (by omega)
            simpa [fileText, ImagesInfo.lastReads, hne] using hread
  | cons l lines ih =>
      obtain ⟨hl, hlines⟩ := List.forall_mem_cons.mp hlines
      have htext : fileText (l :: lines) last =
          l.text ++ Lines.newline :: fileText lines last := by
        simp [fileText]
      rw [htext, Lines.fgets_line (hnewline l) (by omega), ih hlines]
      rfl

/-- The images of the file are in the table, in their order. -/
def Parses (line : Buffer UInt8 LINE_SIZE) (m : ModemImages) (lines : List ImagesLine)
    (last : Option ImagesLine) : Prop :=
  ∃ m', getModemImagesInfo (some (fileText lines last)) line m =
      some (m', ((images (lines ++ last.toList)).take MAX_ITEM).length) ∧
    m'.modemImagesCount = ((images (lines ++ last.toList)).take MAX_ITEM).length ∧
    m'.downloadImageInfo.bytes.take m'.modemImagesCount =
      (images (lines ++ last.toList)).take MAX_ITEM

/-- The first `room` images of a file can be read: their numbers are below `2 ^ 31`, no line of
white space is before them, and none is in a last line without a newline. -/
structure Legible (room : ℕ) (lines : List ImagesLine) (last : Option ImagesLine) : Prop where
  entry : ∀ before e behind, lines = before ++ .entry e :: behind → e.Nonzero →
    (images before).length < room →
      value 0 e.length < 2 ^ 31 ∧ value 0 e.address < 2 ^ 31 ∧ ∀ l ∈ before, ¬ l.IsWhite
  last : (images lines).length < room → ∀ e, last = some (.entry e) → ¬ e.Nonzero

theorem images_cons (l : ImagesLine) (lines : List ImagesLine) :
    images (l :: lines) = l.image?.toList ++ images lines := by
  rw [images, List.filterMap_cons]
  cases l.image? <;> rfl

theorem image?_eq_some {e : Entry} (h : e.Nonzero) : (ImagesLine.entry e).image? = some e.image :=
  if_pos h

theorem exists_of_images_ne_nil {lines : List ImagesLine} (h : images lines ≠ []) :
    ∃ before e behind, lines = before ++ .entry e :: behind ∧ e.Nonzero ∧ images before = [] := by
  induction lines with
  | nil => exact absurd rfl h
  | cons l lines ih =>
      cases himage : l.image? with
      | none =>
          rw [images_cons, himage] at h
          obtain ⟨before, e, behind, rfl, hnonzero, hbefore⟩ := ih h
          refine ⟨l :: before, e, behind, rfl, hnonzero, ?_⟩
          rw [images_cons, himage, hbefore]
          rfl
      | some info =>
          cases l with
          | comment text ht => exact absurd himage.symm (Option.some_ne_none _)
          | blank text ht => exact absurd himage.symm (Option.some_ne_none _)
          | entry e =>
              have hnonzero : e.Nonzero := by
                by_contra hzero
                have hnone : (ImagesLine.entry e).image? = none := if_neg hzero
                rw [hnone] at himage
                exact absurd himage.symm (Option.some_ne_none _)
              exact ⟨[], e, lines, rfl, hnonzero, rfl⟩

theorem legible_cons_iff {l : ImagesLine} (hwhite : ¬ l.IsWhite) {room room' : ℕ}
    (htakes : room' = l.image?.toList.length + room) {lines : List ImagesLine}
    {last : Option ImagesLine} :
    Legible room' (l :: lines) last ↔
      (∀ e, l = .entry e → e.Nonzero → 0 < room' →
        value 0 e.length < 2 ^ 31 ∧ value 0 e.address < 2 ^ 31) ∧
      Legible room lines last := by
  have himages : ∀ lines,
      (images (l :: lines)).length = l.image?.toList.length + (images lines).length := by
    intro lines
    rw [images_cons, List.length_append]
  constructor
  · intro h
    refine ⟨fun e heq hnonzero hpos => ?_, fun before e behind heq hnonzero hroom => ?_,
      fun hroom => h.last ?_⟩
    · obtain ⟨hlength, haddress, -⟩ := h.entry [] e lines (by rw [heq]; rfl) hnonzero hpos
      exact ⟨hlength, haddress⟩
    · obtain ⟨hlength, haddress, hbefore⟩ := h.entry (l :: before) e behind
        (by rw [heq]; rfl) hnonzero (by rw [himages]; omega)
      exact ⟨hlength, haddress, (List.forall_mem_cons.mp hbefore).2⟩
    · rw [himages]
      omega
  · rintro ⟨hhead, h⟩
    refine ⟨fun before e behind heq hnonzero hroom => ?_, fun hroom => h.last ?_⟩
    · cases before with
      | nil =>
          obtain ⟨hlength, haddress⟩ := hhead e (List.cons.inj heq).1 hnonzero hroom
          exact ⟨hlength, haddress, List.forall_mem_nil _⟩
      | cons b before =>
          obtain ⟨rfl, rfl⟩ := List.cons.inj heq
          rw [himages] at hroom
          obtain ⟨hlength, haddress, hbefore⟩ :=
            h.entry before e behind rfl hnonzero (by omega)
          exact ⟨hlength, haddress, List.forall_mem_cons.mpr ⟨hwhite, hbefore⟩⟩
    · rw [himages] at hroom
      omega

/-- A line that is neither an image nor white space does not matter. -/
theorem legible_cons_of_none {l : ImagesLine} (himage : l.image? = none) (hwhite : ¬ l.IsWhite)
    {room : ℕ} {lines : List ImagesLine} {last : Option ImagesLine} :
    Legible room (l :: lines) last ↔ Legible room lines last := by
  have htakes : room = l.image?.toList.length + room := by
    rw [himage]
    exact (Nat.zero_add room).symm
  rw [legible_cons_iff hwhite htakes]
  refine and_iff_right ?_
  rintro e rfl hnonzero
  rw [image?_eq_some hnonzero] at himage
  exact absurd himage (Option.some_ne_none _)

theorem legible_cons_entry {e : Entry} (hnonzero : e.Nonzero) {room : ℕ}
    {lines : List ImagesLine} {last : Option ImagesLine} :
    Legible (room + 1) (.entry e :: lines) last ↔
      (value 0 e.length < 2 ^ 31 ∧ value 0 e.address < 2 ^ 31) ∧ Legible room lines last := by
  have htakes : room + 1 = (ImagesLine.entry e).image?.toList.length + room := by
    rw [image?_eq_some hnonzero]
    exact Nat.add_comm room 1
  have hwhite : ¬ (ImagesLine.entry e).IsWhite := fun h => h.elim
  rw [legible_cons_iff hwhite htakes]
  refine and_congr_left fun _ => ⟨fun h => h e rfl hnonzero (Nat.succ_pos room), ?_⟩
  rintro h e' heq - -
  cases heq
  exact h

theorem legible_cons_white {l : ImagesLine} (hwhite : l.IsWhite) {room : ℕ}
    {lines : List ImagesLine} {last : Option ImagesLine} :
    Legible (room + 1) (l :: lines) last ↔ images (lines ++ last.toList) = [] := by
  have himage := hwhite.none.1
  have happend : images (lines ++ last.toList) = images lines ++ images last.toList :=
    List.filterMap_append
  rw [happend, List.append_eq_nil_iff]
  constructor
  · intro h
    have hlines : images lines = [] := by
      by_contra hne
      obtain ⟨before, e, behind, rfl, hnonzero, hbefore⟩ := exists_of_images_ne_nil hne
      have hroom : (images (l :: before)).length < room + 1 := by
        rw [images_cons, himage, hbefore]
        exact Nat.succ_pos room
      exact (h.entry (l :: before) e behind rfl hnonzero hroom).2.2 l (List.mem_cons_self ..)
        hwhite
    refine ⟨hlines, ?_⟩
    by_contra hne
    obtain ⟨before, e, behind, hlast, hnonzero, -⟩ := exists_of_images_ne_nil hne
    have hroom : (images (l :: lines)).length < room + 1 := by
      rw [images_cons, himage, hlines]
      exact Nat.succ_pos room
    have hmem : ImagesLine.entry e ∈ last.toList := by
      rw [hlast]
      exact List.mem_append_right _ (List.mem_cons_self ..)
    exact h.last hroom e (Option.mem_toList.mp hmem) hnonzero
  · rintro ⟨hlines, hlast⟩
    refine ⟨fun before e behind heq hnonzero _ => ?_, fun _ e hentry hnonzero => ?_⟩
    · cases before with
      | nil =>
          obtain ⟨rfl, -⟩ := List.cons.inj heq
          exact hwhite.elim
      | cons b before =>
          obtain ⟨-, hsplit⟩ := List.cons.inj heq
          have hmem : e.image ∈ images lines :=
            List.mem_filterMap.mpr ⟨.entry e, by rw [hsplit]; simp, image?_eq_some hnonzero⟩
          rw [hlines] at hmem
          exact absurd hmem (by simp)
    · have hmem : e.image ∈ images last.toList :=
        List.mem_filterMap.mpr ⟨.entry e, by simp [hentry], image?_eq_some hnonzero⟩
      rw [hlast] at hmem
      exact absurd hmem (by simp)

theorem ofNat_min_inj {n : ℕ} (hn : n < 2 ^ 32) :
    Int32.ofNat (min (2 ^ 31 - 1) n) = Int32.ofNat n ↔ n < 2 ^ 31 := by
  constructor
  · intro h
    have hbits : ∀ k : ℕ, k < 2 ^ 32 → (Int32.ofNat k).toBitVec.toNat = k := fun k hk =>
      Nat.mod_eq_of_lt hk
    have heq := congrArg (fun x : Int32 => x.toBitVec.toNat) h
    simp only [hbits n hn, hbits (min (2 ^ 31 - 1) n) (by omega)] at heq
    omega
  · intro h
    rw [Nat.min_eq_right (by omega)]

theorem toUInt32_ofNat (n : ℕ) : (Int32.ofNat n).toUInt32 = UInt32.ofNat n := rfl

theorem storedWith_eq_image_iff (e : Entry) : e.storedWith e.address = e.image ↔
    value 0 e.length < 2 ^ 31 ∧ value 0 e.address < 2 ^ 31 := by
  have hlength := ofNat_min_inj e.length_spec.2.2
  have haddress : UInt32.ofNat (min (2 ^ 31 - 1) (value 0 e.address)) =
      UInt32.ofNat (value 0 e.address) ↔ value 0 e.address < 2 ^ 31 := by
    rw [← ofNat_min_inj e.address_spec.2.2, ← toUInt32_ofNat, ← toUInt32_ofNat]
    exact ⟨fun h => by simpa using congrArg UInt32.toInt32 h, congrArg Int32.toUInt32⟩
  rw [Entry.storedWith, Entry.image, ImageInfo.mk.injEq, toUInt32_ofNat, hlength, haddress]
  exact and_iff_right rfl

/-- A number that is not zero becomes another one when its last digit is cut. -/
theorem storedWith_dropLast_ne {e : Entry} (h : value 0 e.address ≠ 0) :
    e.storedWith e.address.dropLast ≠ e.image := by
  have hcut := value_dropLast e.address
  have hlt := e.address_spec.2.2
  intro heq
  have haddress := congrArg (fun i : ImageInfo => i.address.toNat) heq
  have hbits : ∀ k : ℕ, k < 2 ^ 32 → (UInt32.ofNat k).toNat = k := fun k hk =>
    Nat.mod_eq_of_lt hk
  simp only [Entry.storedWith, Entry.image, toUInt32_ofNat, hbits _ hlt,
    hbits (min (2 ^ 31 - 1) (value 0 e.address.dropLast)) (by omega)] at haddress
  omega

theorem legible_nil_iff (room : ℕ) (last : Option ImagesLine) :
    (last.bind ImagesLine.cut?).toList = images last.toList ↔ Legible (room + 1) [] last := by
  have hlegible : Legible (room + 1) [] last ↔ ∀ e, last = some (.entry e) → ¬ e.Nonzero := by
    refine ⟨fun h => h.last (Nat.succ_pos room), fun h => ⟨fun before e behind heq => ?_,
      fun _ => h⟩⟩
    exact absurd heq.symm (by simp)
  rw [hlegible]
  cases last with
  | none => exact iff_of_true rfl (fun e h => absurd h.symm (Option.some_ne_none _))
  | some l =>
      cases l with
      | comment text h =>
          exact iff_of_true rfl (fun e he => by cases he)
      | blank text h =>
          exact iff_of_true rfl (fun e he => by cases he)
      | entry e =>
          have himages : images (some (ImagesLine.entry e)).toList =
              (ImagesLine.entry e).image?.toList := by
            rw [Option.toList_some, images_cons]
            exact List.append_nil _
          rw [himages, Option.bind_some]
          by_cases hnonzero : e.Nonzero
          · refine iff_of_false ?_ (fun h => h e rfl hnonzero)
            rw [image?_eq_some hnonzero, ImagesLine.cut?]
            split_ifs with hcut
            · exact fun h => storedWith_dropLast_ne hnonzero.2 (List.cons.inj h).1
            · exact (List.cons_ne_nil _ _).symm
          · have hcut := value_dropLast e.address
            have hzero : ¬ (value 0 e.length ≠ 0 ∧ value 0 e.address.dropLast ≠ 0) := by
              rw [Entry.Nonzero] at hnonzero
              omega
            have himage : (ImagesLine.entry e).image? = none := if_neg hnonzero
            refine iff_of_true ?_ (fun e' he => by cases he; exact hnonzero)
            rw [himage, ImagesLine.cut?, if_neg hzero]

theorem kept_eq_iff (room : ℕ) (lines : List ImagesLine) (last : Option ImagesLine) :
    ImagesInfo.kept room lines last = (images (lines ++ last.toList)).take room ↔
      Legible room lines last := by
  induction lines generalizing room with
  | nil =>
      cases room with
      | zero =>
          rw [ImagesInfo.kept, List.take_zero]
          exact iff_of_true rfl ⟨fun _ _ _ _ _ h => absurd h (Nat.not_lt_zero _),
            fun h => absurd h (Nat.not_lt_zero _)⟩
      | succ room =>
          rw [ImagesInfo.kept, List.nil_append, List.take_of_length_le, legible_nil_iff]
          cases last with
          | none => exact Nat.zero_le _
          | some l =>
              rw [images]
              exact Nat.le_trans (List.length_filterMap_le _ _) (Nat.succ_le_succ (Nat.zero_le _))
  | cons l lines ih =>
      cases room with
      | zero =>
          rw [ImagesInfo.kept, List.take_zero]
          exact iff_of_true rfl ⟨fun _ _ _ _ _ h => absurd h (Nat.not_lt_zero _),
            fun h => absurd h (Nat.not_lt_zero _)⟩
      | succ room =>
          rw [ImagesInfo.kept, List.cons_append, images_cons]
          by_cases hwhite : l.IsWhite
          · rw [if_pos hwhite, hwhite.none.1, legible_cons_white hwhite, eq_comm]
            exact List.take_eq_nil_iff.trans (or_iff_right (Nat.succ_ne_zero room))
          · rw [if_neg hwhite]
            have hnone (himage : l.image? = none) (hstored : l.stored? = none) :
                (match l.stored? with
                  | none => ImagesInfo.kept (room + 1) lines last
                  | some info => info :: ImagesInfo.kept room lines last) =
                    (l.image?.toList ++ images (lines ++ last.toList)).take (room + 1) ↔
                  Legible (room + 1) (l :: lines) last := by
              rw [hstored, himage, legible_cons_of_none himage hwhite]
              exact ih (room + 1)
            cases l with
            | comment text h => exact hnone rfl rfl
            | blank text h => exact hnone rfl rfl
            | entry e =>
                by_cases hnonzero : e.Nonzero
                · have hstored : (ImagesLine.entry e).stored? = some (e.storedWith e.address) :=
                    if_pos hnonzero
                  rw [hstored, image?_eq_some hnonzero, legible_cons_entry hnonzero,
                    ← storedWith_eq_image_iff, ← ih room]
                  exact List.cons_eq_cons
                · exact hnone (if_neg hnonzero) (if_neg hnonzero)

theorem parses_iff_kept (line : Buffer UInt8 LINE_SIZE) (m : ModemImages)
    {lines : List ImagesLine} {last : Option ImagesLine}
    (hlines : ∀ l ∈ lines, l.text.length + 1 < LINE_SIZE)
    (hlast : ∀ l ∈ last, l.text.length < LINE_SIZE) :
    Parses line m lines last ↔
      ImagesInfo.kept MAX_ITEM lines last = (images (lines ++ last.toList)).take MAX_ITEM := by
  obtain ⟨s, hparse, hcount, htable⟩ := ImagesInfo.parse_spec hlast lines
    ⟨line, m.downloadImageInfo, m.uartDev, 0⟩ (Nat.succ_pos 6) hlines
  rw [← fgets_fileText hlines hlast] at hparse
  have hrun : getModemImagesInfo (some (fileText lines last)) line m =
      some (⟨s.info, s.uartDev, s.imagesCount⟩, s.imagesCount) := by
    rw [getModemImagesInfo, hparse]
    rfl
  have hcount' : s.imagesCount = (ImagesInfo.kept MAX_ITEM lines last).length :=
    hcount.trans (Nat.zero_add _)
  have htable' : s.info.bytes.take s.imagesCount = ImagesInfo.kept MAX_ITEM lines last := htable
  rw [Parses, hrun]
  constructor
  · rintro ⟨m', hm', -, htable''⟩
    obtain ⟨rfl, -⟩ := Prod.mk.inj (Option.some.inj hm')
    exact htable'.symm.trans htable''
  · intro h
    rw [← h]
    refine ⟨⟨s.info, s.uartDev, s.imagesCount⟩, ?_, hcount', htable'⟩
    exact congrArg some (Prod.ext rfl hcount')

theorem parses_iff (line : Buffer UInt8 LINE_SIZE) (m : ModemImages) {lines : List ImagesLine}
    {last : Option ImagesLine} (hlines : ∀ l ∈ lines, l.text.length + 1 < LINE_SIZE)
    (hlast : ∀ l ∈ last, l.text.length < LINE_SIZE) :
    Parses line m lines last ↔ Legible MAX_ITEM lines last :=
  (parses_iff_kept line m hlines hlast).trans (kept_eq_iff MAX_ITEM lines last)

def noImages : ModemImages := ⟨.fill _ ⟨none, 0, 0⟩, none, 6⟩

def dspEntry (address : List UInt8)
    (h : address ≠ [] ∧ (∀ b ∈ address, isHexDigit b) ∧ value 0 address < 2 ^ 32) : Entry where
  path := ofAscii ['/', 'd', 's', 'p']
  gap := [32]
  length := ofAscii ['2', '0', '0']
  gap' := [32]
  address := address
  path_ne_nil := by decide
  path_spec := by decide +kernel
  head_path := by decide
  gap_spec := ⟨by decide, by decide +kernel⟩
  gap'_spec := ⟨by decide, by decide +kernel⟩
  length_spec := ⟨by decide, by decide +kernel, by decide⟩
  address_spec := h

/-- A line `/dsp 0x200 0x20000`. -/
def lowEntry : Entry :=
  dspEntry (ofAscii ['2', '0', '0', '0', '0']) ⟨by decide, by decide +kernel, by decide⟩

theorem parses_iff_lowEntry :
    Parses (.fill _ 0) noImages [.comment [] (by simp), .entry lowEntry] none ↔
      Legible MAX_ITEM [.comment [] (by simp), .entry lowEntry] none :=
  parses_iff (.fill _ 0) noImages (by decide +kernel) (by simp)

/-- A line `/dsp 0x200 0x80000000`. -/
def highEntry : Entry :=
  dspEntry (ofAscii ['8', '0', '0', '0', '0', '0', '0', '0'])
    ⟨by decide, by decide +kernel, by decide⟩

theorem not_parses_highEntry : ¬ Parses (.fill _ 0) noImages [.entry highEntry] none := by
  intro h
  rw [parses_iff_kept _ _ (by decide +kernel) (by simp), kept_eq_iff] at h
  obtain ⟨-, haddress, -⟩ := h.entry [] highEntry [] rfl (by decide) (by decide)
  exact absurd haddress (by decide)

end ModemControl

end Tarako
