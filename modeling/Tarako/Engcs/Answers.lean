import Tarako.Engcs.ModemComm
import Tarako.Lib.Run

/-!
# Whose answer a client gets

Every request with a command makes the modem answer. `corresponds_run` says when each
client of a batch is sent the text of its own answer and nothing of an answer is left in
the stream of the modem: when no request with a command comes behind one without in the
batch, the answers can be read as they arrive, and their texts are made of them alone. The
first condition is necessary.
-/

namespace Tarako

namespace Engcs

open Text

section Call

variable (left : ℕ → Leftover) (answer : ℕ → Answer)

/-! ## What the clients are due -/

def batchOf (read : List UInt8) : Option (List Sent) :=
  engServermodemComm (fun l r => l ++ [r]) [] read

def collected (cmd : ℤ) (b : Block) : Option Parcel :=
  b.lines.foldlM (fun p l => p.push cmd l.text) Parcel.clear

/-- The lines of `b` in `reads`, behind `waiting`: each read fits in `s_ATBuffer` behind
what there is of a line, and no read fails before the final line when the command may end
without one. -/
structure Block.LinesReadable (b : Block) (cmd : ℤ) (waiting : List UInt8)
    (reads : List (List UInt8)) : Prop where
  room : ∀ c ∈ reads, ∀ l ∈ b.lines ++ [b.final],
    waiting.length + l.bytes.length + c.length ≤ ENG_BUF_LEN
  special : engSpecialAT cmd = true → ∀ later, [] :: later <:+ reads →
    later.flatten.length ≤ b.trail.length

/-- The bytes of `b` in `reads`: they fit in `s_ATDictBuf`, the end is recognised, and not
before all is read. The pointer is right for two reads. -/
structure Block.RawReadable (b : Block) (reads : List (List UInt8)) : Prop where
  fits : b.bytes.length < ENG_BUF_LEN
  ends : isAtNoHandleEnd b.bytes = true
  parts : (∃ c, reads.filter (· ≠ []) = [c]) ∨
    ∃ c d, reads.filter (· ≠ []) = [c, d] ∧ isAtNoHandleEnd c = false

/-- The text `text` for the client of a command is made of the answer `b` alone: its lines
can be collected, and nothing that the stack holds is printed. -/
def Block.Gives (b : Block) (cmd : ℤ) (text : List UInt8) : Prop :=
  if cmd = ENG_AT_NOHANDLE_CMD then text = b.bytes
  else ∃ p, collected cmd b = some p ∧ Settled cmd (p.sendData cmd b.final.text) text

/-- The text for the request of a turn: there is no answer without a command. -/
def DueText (turn : ℕ) (c : Command) (text : List UInt8) : Prop :=
  if c.text = [] then text = ascii ['E', 'R', 'R', 'O', 'R']
  else (answer turn).block.Gives c.type text

/-- The command of a request, `none` when the client does not survive it. -/
def commandOf (atOneint : ℤ) (turn : ℕ) (r : Sent) : Option (ℤ × Command) :=
  engCommand atOneint ⟨r.data, (left turn).residue⟩

def DueReplies : ℤ → ℕ → List Sent → List (ℤ × List UInt8) → Prop
  | _, _, [], replies => replies = []
  | atOneint, turn, r :: batch, replies => ∃ next text rest,
      commandOf left atOneint turn r = some next ∧ DueText answer turn next.2 text ∧
        replies = (r.fd, text) :: rest ∧ DueReplies next.1 (turn + 1) batch rest

def commands : ℤ → ℕ → List Sent → List Command
  | _, _, [] => []
  | atOneint, turn, r :: batch =>
      match commandOf left atOneint turn r with
      | none => []
      | some next => next.2 :: commands next.1 (turn + 1) batch

namespace Comm

/-- No response is left to read, only newlines. -/
def Quiet (s : Comm) : Prop :=
  (∀ b ∈ s.atBuffer, isNewline b = true) ∧
    ∀ sim2, ∀ b ∈ (s.modem sim2).flatten, isNewline b = true

def Idle (s : Comm) : Prop := s.parcel = .clear ∧ s.Quiet

/-- No request with a command comes behind one without. -/
def Uniform (s : Comm) (batch : List Sent) : Prop :=
  (commands left s.atOneint s.turn batch).Pairwise fun c d => c.text = [] → d.text = []

/-- The answer `a` to the command `c` of the request `r` can be read to its end, behind the
newlines that are left of earlier ones. -/
structure Readable (s : Comm) (r : Sent) (c : Command) (a : Answer) : Prop where
  in_time : (s.modem (r.type = 1)).flatten ≠ [] ∨ a.inTime = true
  lines : c.type ≠ ENG_AT_NOHANDLE_CMD → a.block.LinesReadable c.type
    (s.atBuffer ++ (s.modem (r.type = 1)).flatten) (s.modem (r.type = 1) ++ a.reads)
  raw : c.type = ENG_AT_NOHANDLE_CMD → (s.modem (r.type = 1)).flatten = [] ∧
    a.block.RawReadable (s.modem (r.type = 1) ++ a.reads)

/-- A turn whose request has a command or none, whose reply is due and can be sent, and whose
answer can be read. -/
def Served (s : Comm) (r : Sent) : Prop :=
  ∃ next text, commandOf left s.atOneint s.turn r = some next ∧
    DueText answer s.turn next.2 text ∧ FitsTmp r.fd text ∧
      (next.2.text ≠ [] → s.Readable r next.2 (answer s.turn))

def ServedAlong : Comm → List Sent → Prop
  | _, [] => True
  | s, r :: batch => s.Served left answer r ∧
      ∀ s', s.turnOf left answer r = some s' → ServedAlong s' batch

/-! ## Calls -/

/-- Every client of the batch in `read` is sent the text for its own request, and no
response is left to read. -/
def Corresponds (s : Comm) (read : List UInt8) : Prop :=
  ∀ batch, batchOf read = some batch → ∃ s' replies, s.call left answer read = some s' ∧
    s'.replies = s.replies ++ replies ∧
      DueReplies left answer s.atOneint s.turn batch replies ∧ s'.Quiet

def UniformCall (s : Comm) (read : List UInt8) : Prop :=
  ∀ batch, batchOf read = some batch → s.Uniform left batch

def ServedCall (s : Comm) (read : List UInt8) : Prop :=
  ∀ batch, batchOf read = some batch → ServedAlong left answer { s with ret := 0 } batch

def callStep (o : Option Comm) (read : List UInt8) : Option Comm :=
  o.bind fun s => s.call left answer read

def Alive (P : Comm → Prop) (o : Option Comm) : Prop := ∀ s, o = some s → P s

end Comm

end Call

/-! ## Reading an answer -/

theorem ne_zero_of_isNewline {b : UInt8} (h : isNewline b = true) : b ≠ 0 := by
  rintro rfl
  cases h

theorem Line.zero_not_mem_bytes (l : Line) : 0 ∉ l.bytes := by
  intro h
  rw [Line.bytes, List.mem_append, List.mem_append, List.mem_singleton] at h
  rcases h with h | h | h
  · exact ne_zero_of_isNewline (l.before_newline 0 h) rfl
  · exact l.zero_not_mem h
  · exact ne_zero_of_isNewline l.term_newline h.symm

namespace Block

theorem bytesFrom_nil (b : Block) : b.bytesFrom [] = b.final.bytes ++ b.trail := rfl

theorem bytesFrom_cons (b : Block) (l : Line) (lines : List Line) :
    b.bytesFrom (l :: lines) = l.bytes ++ b.bytesFrom lines := by
  simp [bytesFrom]

theorem zero_not_mem_bytes (b : Block) : 0 ∉ b.bytes := by
  intro h
  rw [bytes, bytesFrom, List.mem_append, List.mem_append, List.mem_flatMap] at h
  rcases h with ⟨l, -, hl⟩ | h | h
  · exact l.zero_not_mem_bytes hl
  · exact b.final.zero_not_mem_bytes h
  · exact ne_zero_of_isNewline (b.trail_newline 0 h) rfl

theorem exists_not_newline (b : Block) : ∃ a ∈ b.bytes, isNewline a = false := by
  obtain ⟨a, text, htext⟩ := List.exists_cons_of_ne_nil b.final.text_ne_nil
  refine ⟨a, ?_, b.final.text_newline a (by simp [htext])⟩
  simp [bytes, bytesFrom, Line.bytes, htext]

end Block

/-! ## Collecting the lines -/

theorem Block.length_lines_le (b : Block) : b.lines.length ≤ b.bytes.length := by
  have hle : ∀ lines : List Line, lines.length ≤ (lines.flatMap Line.bytes).length := by
    intro lines
    induction lines with
    | nil => exact Nat.le_refl _
    | cons l lines ih =>
        rw [List.flatMap_cons, List.length_append, List.length_cons, Line.bytes,
          List.length_append, List.length_append, List.length_singleton]
        omega
  rw [bytes, bytesFrom, List.length_append]
  exact Nat.le_add_right_of_le (hle b.lines)

/-- The lines of `b` from `lines` on are next in `pending`. -/
def Block.Pending (b : Block) (pending : List UInt8) : List Line → Prop
  | [] => Starts b.final b.trail pending
  | l :: lines => Starts l (b.bytesFrom lines) pending

theorem Block.pending_append (b : Block) {before : List UInt8}
    (hbefore : ∀ a ∈ before, isNewline a = true) (lines : List Line) :
    b.Pending (before ++ b.bytesFrom lines) lines := by
  cases lines with
  | nil => exact (Starts.of_line b.final b.trail).append_left hbefore
  | cons l lines =>
      rw [b.bytesFrom_cons]
      exact (Starts.of_line l _).append_left hbefore

theorem Block.length_trail_le (b : Block) (lines : List Line) :
    b.trail.length ≤ (b.bytesFrom lines).length := by
  rw [bytesFrom, List.length_append, List.length_append]
  omega

/-- The lines of an answer that is on its way are all read, up to the final one. In front
of them there may be `waiting` bytes. -/
theorem readResponse_spec {cmd : ℤ} {b : Block} (waiting : ℕ) :
    ∀ (fuel : ℕ) (parcel : Parcel) (lines : List Line) (atBuffer : List UInt8)
      (reads : List (List UInt8)) (p : Parcel),
      (∀ l ∈ lines, (isFinalResponseSuccess l.text || isFinalResponseError l.text) = false) →
      b.Pending (atBuffer ++ reads.flatten) lines →
      (atBuffer ++ reads.flatten).length ≤ waiting + (b.bytesFrom lines).length →
      (∀ c ∈ reads, ∀ l ∈ lines ++ [b.final],
        waiting + l.bytes.length + c.length ≤ ENG_BUF_LEN) →
      (engSpecialAT cmd = true → ∀ later, [] :: later <:+ reads →
        later.flatten.length ≤ b.trail.length) →
      reads.length + lines.length < fuel →
      lines.foldlM (fun p l => p.push cmd l.text) parcel = some p →
        ∃ res, readResponse cmd fuel parcel atBuffer reads = some res ∧
          res.data = p.sendData cmd b.final.text ∧ res.atBuffer ++ res.reads.flatten = b.trail
  | 0, parcel, lines, atBuffer, reads, p, _, _, _, _, _, hfuel, _ => by
      omega
  | fuel + 1, parcel, [], atBuffer, reads, p, hlines, hpending, hlen, hroom, hspecial, hfuel,
      hp => by
      obtain ⟨r, hr, hsuffix, hout⟩ := engReadline_spec hpending fun c hc => by
        have hline := hroom c hc b.final (by simp)
        rw [b.bytesFrom_nil, @List.length_append _ b.final.bytes] at hlen
        omega
      rw [readResponse, hr, Option.bind_some]
      rcases hout with ⟨hline, hrest⟩ | ⟨hnull, hagain, hle, hgap, hlater⟩
      · cases hp
        simp only [hline, b.is_final, if_true]
        exact ⟨_, rfl, rfl, hrest⟩
      · -- nothing to read yet
        have hnot : engSpecialAT cmd = false := by
          simpa using fun h => Nat.not_le.mpr hlater (hspecial h _ hgap)
        have hreads := hgap.length_le
        rw [List.length_cons] at hreads
        simp only [hnull, hnot, Bool.false_eq_true, if_false]
        exact readResponse_spec waiting fuel parcel [] r.atBuffer r.reads p hlines hagain (by omega)
          (fun c hc => hroom c (hsuffix.subset hc)) (fun h => by simp [hnot] at h) (by omega) hp
  | fuel + 1, parcel, l :: ls, atBuffer, reads, p, hlines, hpending, hlen, hroom, hspecial, hfuel,
      hp => by
      obtain ⟨r, hr, hsuffix, hout⟩ := engReadline_spec hpending fun c hc => by
        have hline := hroom c hc l (by simp)
        rw [b.bytesFrom_cons, @List.length_append _ l.bytes] at hlen
        omega
      obtain ⟨hl, hls⟩ := List.forall_mem_cons.mp hlines
      have hlength := hsuffix.length_le
      rw [List.length_cons] at hfuel
      rw [readResponse, hr, Option.bind_some]
      rcases hout with ⟨hline, hrest⟩ | ⟨hnull, hagain, hle, hgap, hlater⟩
      · rw [List.foldlM_cons] at hp
        obtain ⟨q, hq, hp⟩ := Option.bind_eq_some_iff.mp hp
        simp only [hline, hl, hq, Bool.false_eq_true, if_false, Option.bind_some]
        have hnext : b.Pending (r.atBuffer ++ r.reads.flatten) ls := by
          rw [hrest]
          exact @Block.pending_append b [] (by simp) ls
        refine readResponse_spec waiting fuel q ls r.atBuffer r.reads p hls hnext ?_ ?_ ?_
          (by omega) hp
        · rw [hrest]
          exact Nat.le_add_left _ _
        · intro c hc m hm
          exact hroom c (hsuffix.subset hc) m (List.mem_cons_of_mem l hm)
        · exact fun h later hlater => hspecial h later (hlater.trans hsuffix)
      · -- nothing to read yet
        have hnot : engSpecialAT cmd = false := by
          have htrail := b.length_trail_le ls
          simpa using fun h => Nat.not_le.mpr hlater ((hspecial h _ hgap).trans htrail)
        have hreads := hgap.length_le
        rw [List.length_cons] at hreads
        simp only [hnull, hnot, Bool.false_eq_true, if_false]
        exact readResponse_spec waiting fuel parcel (l :: ls) r.atBuffer r.reads p hlines hagain
          (by omega) (fun c hc => hroom c (hsuffix.subset hc)) (fun h => by simp [hnot] at h)
          (by rw [List.length_cons]; omega) hp

/-! ## Reading an answer that is not cut into lines -/

theorem readRaw_skip {gaps : List (List UInt8)} (hgaps : ∀ c ∈ gaps, c = [])
    {dict : Buffer UInt8 ENG_BUF_LEN} (hdict : isAtNoHandleEnd (cstring dict.bytes) = false)
    (reads : List (List UInt8)) (ptr counter : ℕ) :
    readRaw (gaps ++ reads) dict ptr counter = readRaw reads dict ptr counter := by
  induction gaps with
  | nil => rfl
  | cons c gaps ih =>
      obtain ⟨hc, hgaps⟩ := List.forall_mem_cons.mp hgaps
      rw [List.cons_append, readRaw, if_pos hc, hdict]
      exact ih hgaps

theorem readRaw_cons {text c : List UInt8} (hc : c ≠ []) (hzero : 0 ∉ text ++ c)
    (hlen : (text ++ c).length < ENG_BUF_LEN) {dict : Buffer UInt8 ENG_BUF_LEN}
    (hdict : dict.bytes = Splice.splice (Buffer.fill ENG_BUF_LEN 0).bytes 0 text)
    (reads : List (List UInt8)) (counter : ℕ) :
    ∃ dict' : Buffer UInt8 ENG_BUF_LEN,
      dict'.bytes = Splice.splice (Buffer.fill ENG_BUF_LEN 0).bytes 0 (text ++ c) ∧
        readRaw (c :: reads) dict text.length counter =
          if isAtNoHandleEnd (text ++ c) then some (text ++ c, reads)
          else readRaw reads dict' (text.length + (counter + c.length)) (counter + c.length) := by
  rw [List.length_append] at hlen
  have hwrite : dict.write? text.length c ≠ none := by
    rw [Ne, Buffer.write?_eq_none_iff]
    omega
  obtain ⟨dict', hdict'⟩ := Option.ne_none_iff_exists'.mp hwrite
  have hbytes : dict'.bytes = Splice.splice (Buffer.fill ENG_BUF_LEN 0).bytes 0 (text ++ c) := by
    rw [((Buffer.write?_eq_some_iff _ _ _ _).mp hdict').2, hdict, ← Splice.splice_append,
      Nat.zero_add]
    rw [Buffer.size_eq]
    omega
  have htext : cstring dict'.bytes = text ++ c := by
    rw [hbytes, cstring_splice_fill, cstring_of_not_mem hzero]
  refine ⟨dict', hbytes, ?_⟩
  rw [readRaw, if_neg hc, if_neg (by omega), hdict', Option.bind_some, htext]

theorem readRaw_spec {b : Block} {reads : List (List UInt8)} (h : b.RawReadable reads)
    (hreads : reads.flatten = b.bytes) :
    ∃ later, readRaw reads (Buffer.fill ENG_BUF_LEN 0) 0 0 = some (b.bytes, later) ∧
      later.flatten = [] := by
  obtain ⟨hfits, hends, hparts⟩ := h
  have hempty : isAtNoHandleEnd (cstring (Buffer.fill ENG_BUF_LEN (0 : UInt8)).bytes) =
      false := by
    have hnil : cstring (Buffer.fill ENG_BUF_LEN (0 : UInt8)).bytes = [] :=
      cstring_append_replicate [] ENG_BUF_LEN
    rw [hnil]
    rfl
  have hfill : (Buffer.fill ENG_BUF_LEN (0 : UInt8)).bytes =
      Splice.splice (Buffer.fill ENG_BUF_LEN 0).bytes 0 [] := (Splice.splice_nil _ _).symm
  have hzero := b.zero_not_mem_bytes
  rw [← hreads, ← List.flatten_filter_ne_nil] at hfits hends hzero ⊢
  rcases hparts with ⟨c, hc⟩ | ⟨c, d, hcd, hnot⟩
  · -- one read
    rw [hc, List.flatten_singleton] at hfits hends hzero ⊢
    obtain ⟨gaps, later, rfl, hgaps, hne, hlater⟩ := List.filter_eq_cons_iff.mp hc
    obtain ⟨_, -, hstep⟩ := @readRaw_cons [] c (by simpa using hne) hzero hfits _ hfill later 0
    rw [readRaw_skip (by simpa using hgaps) hempty]
    refine ⟨later, ?_, ?_⟩
    · rw [List.length_nil, List.nil_append, if_pos hends] at hstep
      exact hstep
    · rw [← List.flatten_filter_ne_nil, hlater, List.flatten_nil]
  · -- two reads, which the pointer follows
    rw [hcd, List.flatten_cons, List.flatten_singleton] at hfits hends hzero ⊢
    obtain ⟨gaps, mid, rfl, hgaps, hne, hmid⟩ := List.filter_eq_cons_iff.mp hcd
    obtain ⟨gaps', later, rfl, hgaps', hne', hlater⟩ := List.filter_eq_cons_iff.mp hmid
    have hzeroc : 0 ∉ c := fun hmem => hzero (List.mem_append_left d hmem)
    have hfitsc : c.length < ENG_BUF_LEN := Nat.lt_of_le_of_lt (by simp) hfits
    obtain ⟨dict, hdict, hstep⟩ := @readRaw_cons [] c (by simpa using hne) hzeroc hfitsc _ hfill
      (gaps' ++ d :: later) 0
    obtain ⟨_, -, hstep'⟩ := readRaw_cons (by simpa using hne') hzero hfits hdict later
      (0 + c.length)
    have htext : cstring dict.bytes = c := by
      rw [hdict, List.nil_append, cstring_splice_fill, cstring_of_not_mem hzeroc]
    refine ⟨later, ?_, ?_⟩
    · rw [List.length_nil, List.nil_append, hnot, Nat.zero_add] at hstep
      rw [readRaw_skip (by simpa using hgaps) hempty, hstep, if_neg (by decide), Nat.zero_add,
        readRaw_skip (by simpa using hgaps') (by rw [htext, hnot])]
      rw [Nat.zero_add, if_pos hends] at hstep'
      exact hstep'
    · rw [← List.flatten_filter_ne_nil, hlater, List.flatten_nil]

/-! ## One turn -/

section Turns

variable {left : ℕ → Leftover} {answer : ℕ → Answer}

namespace Comm

theorem write2server_eq_some_iff {s s' : Comm} {fd : ℤ} {data : List UInt8} :
    s.write2server fd data = some s' ↔
      FitsTmp fd data ∧ s' = { s with replies := s.replies ++ [(fd, data)] } := by
  rw [write2server]
  split_ifs with hfits
  · rw [Option.some_inj, and_iff_right hfits, eq_comm]
  · simp [hfits]

/-- From the first request without a command on, the clients are sent an error and nothing
of the modem is read. -/
theorem turnOf_of_error {s : Comm} {r : Sent} {next : ℤ × Command}
    (hnext : commandOf left s.atOneint s.turn r = some next)
    (h : s.ret = -1 ∨ next.2.text = []) :
    s.turnOf left answer r =
      write2server
        (if next.2.text = [] then { s with atOneint := next.1, turn := s.turn + 1, ret := -1 }
        else s.answered next.1 (r.type = 1) (answer s.turn).reads)
        r.fd (ascii ['E', 'R', 'R', 'O', 'R']) := by
  rw [commandOf] at hnext
  rw [turnOf, hnext, Option.bind_some]
  by_cases hc : next.2.text = []
  · simp [hc, modem2server]
  · have hret : s.ret = -1 := h.resolve_right hc
    simp [hc, modem2server, answered, hret]

theorem turnOf_of_empty {s : Comm} {r : Sent} {next : ℤ × Command} {text : List UInt8}
    (hidle : s.Idle) (hnext : commandOf left s.atOneint s.turn r = some next)
    (hc : next.2.text = []) (htext : DueText answer s.turn next.2 text)
    (hfits : FitsTmp r.fd text) :
    ∃ s', s.turnOf left answer r = some s' ∧ s'.Idle ∧ s'.ret = -1 ∧
      s'.atOneint = next.1 ∧ s'.turn = s.turn + 1 ∧
      s'.replies = s.replies ++ [(r.fd, text)] := by
  rw [DueText, if_pos hc] at htext
  rw [turnOf_of_error hnext (Or.inr hc), if_pos hc, ← htext, write2server, if_pos hfits]
  exact ⟨_, rfl, hidle, rfl, rfl, rfl, rfl⟩

theorem answered_modem_self (s : Comm) (atOneint : ℤ) (sim2 : Bool)
    (reads : List (List UInt8)) :
    (s.answered atOneint sim2 reads).modem sim2 = s.modem sim2 ++ reads :=
  Function.update_self ..

/-- The lines of the answer `b` are collected and their text is sent. -/
theorem modem2server_of_lines {s : Comm} (stack : Stack) {r : Sent} {cmd : ℤ} {b : Block}
    {waiting text : List UInt8} (hret : s.ret = 0) (hparcel : s.parcel = .clear)
    (hcmd : cmd ≠ ENG_AT_NOHANDLE_CMD) (hwaiting : ∀ a ∈ waiting, isNewline a = true)
    (hpending : s.atBuffer ++ (s.modem (r.type = 1)).flatten = waiting ++ b.bytes)
    (hread : b.LinesReadable cmd waiting (s.modem (r.type = 1))) (htext : b.Gives cmd text)
    (hfits : FitsTmp r.fd text) :
    ∃ atBuffer reads, atBuffer ++ reads.flatten = b.trail ∧
      s.modem2server stack r cmd true = some { s with
        atBuffer
        modem := Function.update s.modem (r.type = 1) reads
        replies := s.replies ++ [(r.fd, text)] } := by
  rw [Block.Gives, if_neg hcmd] at htext
  obtain ⟨p, hp, hsettled⟩ := htext
  have hfuel : (s.modem (r.type = 1)).length + b.lines.length <
      (s.modem (r.type = 1)).length +
        (s.atBuffer ++ (s.modem (r.type = 1)).flatten).length + 1 := by
    have hlines := b.length_lines_le
    rw [hpending, List.length_append]
    omega
  obtain ⟨res, hres, hdata, hrest⟩ := readResponse_spec waiting.length _
    Parcel.clear b.lines s.atBuffer (s.modem (r.type = 1)) p b.not_final
    (by rw [hpending]; exact b.pending_append hwaiting b.lines)
    (by rw [hpending, List.length_append]; exact Nat.le_refl _) hread.room hread.special hfuel hp
  refine ⟨res.atBuffer, res.reads, hrest, ?_⟩
  simp only [modem2server]
  rw [if_neg (by rw [hret]; decide), if_neg (by simp [hret]), if_pos hcmd, hparcel, hres,
    Option.bind_some, hdata, hsettled stack, Option.bind_some, write2server, if_pos hfits]

theorem modem2server_of_raw {s : Comm} (stack : Stack) {r : Sent} {b : Block} (hret : s.ret = 0)
    (hparcel : s.parcel = .clear) (hpending : (s.modem (r.type = 1)).flatten = b.bytes)
    (hread : b.RawReadable (s.modem (r.type = 1))) (hfits : FitsTmp r.fd b.bytes) :
    ∃ reads, reads.flatten = [] ∧
      s.modem2server stack r ENG_AT_NOHANDLE_CMD true = some { s with
        modem := Function.update s.modem (r.type = 1) reads
        replies := s.replies ++ [(r.fd, b.bytes)] } := by
  obtain ⟨later, hraw, hlater⟩ := readRaw_spec hread hpending
  refine ⟨later, hlater, ?_⟩
  rw [modem2server]
  simp [hret, hparcel, hraw, write2server, hfits]

theorem newlines_update {modem : Bool → List (List UInt8)}
    (h : ∀ sim2, ∀ b ∈ (modem sim2).flatten, isNewline b = true) (sim : Bool)
    (before : List (List UInt8)) {reads : List (List UInt8)}
    (hreads : ∀ b ∈ reads.flatten, isNewline b = true) :
    ∀ sim2, ∀ b ∈ (Function.update (Function.update modem sim before) sim reads sim2).flatten,
      isNewline b = true := by
  intro sim2 b hb
  rw [Function.update_idem] at hb
  by_cases hsim : sim2 = sim
  · rw [hsim, Function.update_self] at hb
    exact hreads b hb
  · rw [Function.update_of_ne hsim] at hb
    exact h sim2 b hb

theorem turnOf_of_command {s : Comm} {r : Sent} {next : ℤ × Command} {text : List UInt8}
    (hidle : s.Idle) (hret : s.ret = 0) (hnext : commandOf left s.atOneint s.turn r = some next)
    (hc : next.2.text ≠ []) (htext : DueText answer s.turn next.2 text)
    (hfits : FitsTmp r.fd text) (hread : s.Readable r next.2 (answer s.turn)) :
    ∃ s', s.turnOf left answer r = some s' ∧ s'.Idle ∧ s'.ret = 0 ∧
      s'.atOneint = next.1 ∧ s'.turn = s.turn + 1 ∧
      s'.replies = s.replies ++ [(r.fd, text)] := by
  obtain ⟨hin, hlines, hraw⟩ := hread
  obtain ⟨hparcel, hbuf, hmodem⟩ := hidle
  rw [DueText, if_neg hc] at htext
  generalize hanswer : answer s.turn = a at *
  -- the state in which the answer is read
  have hturn : s.turnOf left answer r =
      modem2server (s.answered next.1 (r.type = 1) a.reads) (left s.turn).stack r next.2.type
        true := by
    have hready : (!(s.modem (r.type = 1)).flatten.isEmpty || a.inTime) = true := by
      rw [Bool.or_eq_true, Bool.not_eq_true', List.isEmpty_eq_false_iff]
      exact hin
    rw [commandOf] at hnext
    rw [turnOf, hnext, Option.bind_some, hanswer, if_neg hc, hready]
  have hself := s.answered_modem_self next.1 (r.type = 1) a.reads
  rw [← hself] at hlines hraw
  rw [hturn]
  by_cases hcmd : next.2.type = ENG_AT_NOHANDLE_CMD
  · obtain ⟨hempty, hraw⟩ := hraw hcmd
    obtain rfl : text = a.block.bytes := by
      rwa [Block.Gives, if_pos hcmd] at htext
    have hpending : ((s.answered next.1 (r.type = 1) a.reads).modem (r.type = 1)).flatten =
        a.block.bytes := by
      rw [hself, List.flatten_append, hempty, List.nil_append, a.flatten_eq]
    obtain ⟨reads, hreads, heq⟩ := modem2server_of_raw (left s.turn).stack
      (s := s.answered next.1 (r.type = 1) a.reads) hret hparcel hpending hraw hfits
    rw [hcmd, heq]
    exact ⟨_, rfl, ⟨hparcel, hbuf, newlines_update hmodem _ _ (by simp [hreads])⟩, hret, rfl, rfl,
      rfl⟩
  · have hwaiting : ∀ b ∈ s.atBuffer ++ (s.modem (r.type = 1)).flatten, isNewline b = true := by
      intro b hb
      rcases List.mem_append.mp hb with hb | hb
      · exact hbuf b hb
      · exact hmodem _ b hb
    have hpending : (s.answered next.1 (r.type = 1) a.reads).atBuffer ++
        ((s.answered next.1 (r.type = 1) a.reads).modem (r.type = 1)).flatten =
          (s.atBuffer ++ (s.modem (r.type = 1)).flatten) ++ a.block.bytes := by
      rw [hself, List.flatten_append, a.flatten_eq, ← List.append_assoc]
      rfl
    obtain ⟨atBuffer, reads, hrest, heq⟩ := modem2server_of_lines (left s.turn).stack
      (s := s.answered next.1 (r.type = 1) a.reads) hret hparcel hcmd hwaiting hpending
      (hlines hcmd) htext hfits
    refine ⟨_, heq, ⟨hparcel, ?_, ?_⟩, hret, rfl, rfl, rfl⟩
    · intro b hb
      exact a.block.trail_newline b (by rw [← hrest]; exact List.mem_append_left _ hb)
    · apply newlines_update hmodem
      intro b hb
      exact a.block.trail_newline b (by rw [← hrest]; exact List.mem_append_right _ hb)

/-! ## A batch -/

theorem turns_cons (s : Comm) (r : Sent) (batch : List Sent) :
    s.turns left answer (r :: batch) =
      (s.turnOf left answer r).bind fun s' => s'.turns left answer batch := by
  rw [turns, List.foldlM_cons]
  rfl

theorem commands_cons {atOneint : ℤ} {turn : ℕ} {r : Sent} {next : ℤ × Command}
    (hnext : commandOf left atOneint turn r = some next) (batch : List Sent) :
    commands left atOneint turn (r :: batch) =
      next.2 :: commands left next.1 (turn + 1) batch := by
  rw [commands, hnext]

/-- The turns of a batch that meets the conditions. Behind the first request without a
command there are only such requests. -/
theorem turns_spec :
    ∀ (batch : List Sent) (s : Comm), s.Idle →
      s.ret = 0 ∨ s.ret = -1 ∧ (∀ c ∈ commands left s.atOneint s.turn batch, c.text = []) →
      s.Uniform left batch → s.ServedAlong left answer batch →
        ∃ s' replies, s.turns left answer batch = some s' ∧
          s'.replies = s.replies ++ replies ∧
          DueReplies left answer s.atOneint s.turn batch replies ∧ s'.Idle
  | [], s, hidle, _, _, _ => ⟨s, [], rfl, (List.append_nil _).symm, rfl, hidle⟩
  | r :: batch, s, hidle, hret, huniform, hserved => by
      obtain ⟨⟨next, text, hnext, htext, hfits, hread⟩, hrest⟩ := hserved
      rw [Uniform, commands_cons hnext, List.pairwise_cons] at huniform
      obtain ⟨s', hstep, hidle', hret', hatOneint, hturn, hreplies⟩ :
          ∃ s', s.turnOf left answer r = some s' ∧ s'.Idle ∧
            (s'.ret = 0 ∨ s'.ret = -1 ∧
              ∀ c ∈ commands left next.1 (s.turn + 1) batch, c.text = []) ∧
            s'.atOneint = next.1 ∧ s'.turn = s.turn + 1 ∧
            s'.replies = s.replies ++ [(r.fd, text)] := by
        by_cases hc : next.2.text = []
        · obtain ⟨s', hstep, hidle', hret', hafter⟩ :=
            turnOf_of_empty hidle hnext hc htext hfits
          exact ⟨s', hstep, hidle', Or.inr ⟨hret', fun d hd => huniform.1 d hd hc⟩, hafter⟩
        · have hzero : s.ret = 0 := by
            rcases hret with hret | ⟨-, hall⟩
            · exact hret
            · rw [commands_cons hnext] at hall
              exact absurd (hall _ List.mem_cons_self) hc
          obtain ⟨s', hstep, hidle', hret', hafter⟩ :=
            turnOf_of_command hidle hzero hnext hc htext hfits (hread hc)
          exact ⟨s', hstep, hidle', Or.inl hret', hafter⟩
      rw [← hatOneint, ← hturn] at hret'
      have huniform' : s'.Uniform left batch := by
        rw [Uniform, hatOneint, hturn]
        exact huniform.2
      obtain ⟨s'', replies, hs'', hreplies', hdue, hidle''⟩ :=
        turns_spec batch s' hidle' hret' huniform' (hrest s' hstep)
      refine ⟨s'', (r.fd, text) :: replies, ?_, ?_, ?_, hidle''⟩
      · rw [turns_cons, hstep, Option.bind_some, hs'']
      · rw [hreplies', hreplies, List.append_assoc, List.singleton_append]
      · rw [hatOneint, hturn] at hdue
        exact ⟨next, text, replies, hnext, htext, rfl, hdue⟩

/-! ## Answers that stay -/

/-- What a turn leaves of the state before it, apart from the modems and the reply. -/
theorem of_modem2server {s s' : Comm} {stack : Stack} {r : Sent} {cmd : ℤ} {ready : Bool}
    (h : s.modem2server stack r cmd ready = some s') :
    s'.atOneint = s.atOneint ∧ s'.turn = s.turn := by
  simp only [modem2server] at h
  split_ifs at h with hfatal herror hcmd
  · rw [Option.some_inj] at h
    rw [h]
    exact ⟨rfl, rfl⟩
  · rw [(write2server_eq_some_iff.mp h).2]
    exact ⟨rfl, rfl⟩
  · obtain ⟨res, -, h⟩ := Option.bind_eq_some_iff.mp h
    obtain ⟨text, -, h⟩ := Option.bind_eq_some_iff.mp h
    rw [(write2server_eq_some_iff.mp h).2]
    exact ⟨rfl, rfl⟩
  · obtain ⟨raw, -, h⟩ := Option.bind_eq_some_iff.mp h
    rw [(write2server_eq_some_iff.mp h).2]
    exact ⟨rfl, rfl⟩

theorem exists_commandOf {s s' : Comm} {r : Sent} (h : s.turnOf left answer r = some s') :
    ∃ next, commandOf left s.atOneint s.turn r = some next ∧ s'.atOneint = next.1 ∧
      s'.turn = s.turn + 1 := by
  obtain ⟨next, hnext, h⟩ := Option.bind_eq_some_iff.mp h
  refine ⟨next, hnext, ?_⟩
  split_ifs at h
  · exact of_modem2server h
  · exact of_modem2server h

theorem turnOf_keeps {s s' : Comm} {r : Sent} {next : ℤ × Command}
    (hnext : commandOf left s.atOneint s.turn r = some next)
    (herror : s.ret = -1 ∨ next.2.text = []) (h : s.turnOf left answer r = some s') :
    s'.ret = -1 ∧ (∀ sim2, (s.modem sim2).flatten <+: (s'.modem sim2).flatten) ∧
      (next.2.text ≠ [] →
        (answer s.turn).block.bytes <:+ (s'.modem (r.type = 1)).flatten) := by
  rw [turnOf_of_error hnext herror, write2server_eq_some_iff] at h
  obtain ⟨-, rfl⟩ := h
  by_cases hc : next.2.text = []
  · rw [if_pos hc]
    exact ⟨rfl, fun sim2 => List.prefix_refl _, fun hne => absurd hc hne⟩
  · have hself := s.answered_modem_self next.1 (r.type = 1) (answer s.turn).reads
    rw [if_neg hc]
    refine ⟨herror.resolve_right hc, ?_, fun _ => ?_⟩
    · intro sim2
      change _ <+: (Function.update s.modem (r.type = 1) _ sim2).flatten
      by_cases hsim : sim2 = decide (r.type = 1)
      · rw [hsim, Function.update_self, List.flatten_append]
        exact List.prefix_append _ _
      · simp [Function.update_of_ne hsim]
    · rw [hself, List.flatten_append, (answer s.turn).flatten_eq]
      exact List.suffix_append _ _

theorem turns_keep :
    ∀ (batch : List Sent) (s s' : Comm), s.ret = -1 →
      s.turns left answer batch = some s' →
        ∀ sim2, (s.modem sim2).flatten <+: (s'.modem sim2).flatten
  | [], s, s', _, h, sim2 => by
      cases h
      exact List.prefix_refl _
  | r :: batch, s, s', hret, h, sim2 => by
      rw [turns_cons] at h
      obtain ⟨t, hstep, h⟩ := Option.bind_eq_some_iff.mp h
      obtain ⟨next, hnext, -⟩ := exists_commandOf hstep
      obtain ⟨hret', hkeep, -⟩ := turnOf_keeps hnext (Or.inl hret) hstep
      exact (hkeep sim2).trans (turns_keep batch t s' hret' h sim2)

/-- Once `ret` is set, only a batch without further commands leaves nothing to read. -/
theorem commands_eq_nil_of_quiet :
    ∀ (batch : List Sent) (s s' : Comm), s.ret = -1 →
      s.turns left answer batch = some s' → s'.Quiet →
        ∀ c ∈ commands left s.atOneint s.turn batch, c.text = []
  | [], s, s', _, _, _, c, hc => by
      cases hc
  | r :: batch, s, s', hret, h, hquiet, c, hc => by
      rw [turns_cons] at h
      obtain ⟨t, hstep, h⟩ := Option.bind_eq_some_iff.mp h
      obtain ⟨next, hnext, hatOneint, hturn⟩ := exists_commandOf hstep
      obtain ⟨hret', -, hanswer⟩ := turnOf_keeps hnext (Or.inl hret) hstep
      rw [commands_cons hnext, ← hatOneint, ← hturn] at hc
      rcases List.mem_cons.mp hc with rfl | hc
      · by_contra hne
        obtain ⟨a, ha, hline⟩ := (answer s.turn).block.exists_not_newline
        have hmem := (turns_keep batch t s' hret' h (r.type = 1)).subset
          ((hanswer hne).subset ha)
        rw [hquiet.2 _ a hmem] at hline
        cases hline
      · exact commands_eq_nil_of_quiet batch t s' hret' h hquiet c hc

theorem uniform_of_quiet :
    ∀ (batch : List Sent) (s s' : Comm),
      s.turns left answer batch = some s' → s'.Quiet → s.Uniform left batch
  | [], s, s', _, _ => List.Pairwise.nil
  | r :: batch, s, s', h, hquiet => by
      rw [turns_cons] at h
      obtain ⟨t, hstep, h⟩ := Option.bind_eq_some_iff.mp h
      obtain ⟨next, hnext, hatOneint, hturn⟩ := exists_commandOf hstep
      have hrest := uniform_of_quiet batch t s' h hquiet
      rw [Uniform, hatOneint, hturn] at hrest
      rw [Uniform, commands_cons hnext, List.pairwise_cons]
      refine ⟨fun d hd hc => ?_, hrest⟩
      obtain ⟨hret, -⟩ := turnOf_keeps hnext (Or.inr hc) hstep
      rw [← hatOneint, ← hturn] at hd
      exact commands_eq_nil_of_quiet batch t s' hret h hquiet d hd

/-! ## Calls -/

theorem foldl_bind_none {σ ε : Type*} (f : σ → ε → Option σ) (es : List ε) :
    es.foldl (fun o e => o.bind (f · e)) none = none := by
  induction es with
  | nil => rfl
  | cons e es ih => exact ih

theorem foldl_bind {σ ε : Type*} (f : σ → ε → Option σ) (s : σ) (es : List ε) :
    es.foldl (fun o e => o.bind (f · e)) (some s) = es.foldlM f s := by
  induction es generalizing s with
  | nil => rfl
  | cons e es ih =>
      rw [List.foldl_cons, List.foldlM_cons, Option.bind_some]
      cases hs : f s e with
      | none => exact foldl_bind_none f es
      | some s' => exact ih s'

variable (left answer)

theorem call_eq (s : Comm) (read : List UInt8) :
    s.call left answer read =
      (batchOf read).bind fun batch =>
        turns left answer { s with ret := 0 } batch := by
  rw [call, batchOf, engServermodemComm, engServermodemComm]
  by_cases hread : read = []
  · rw [if_pos hread, if_pos hread]
    rfl
  · have hloop := commLoop_foldl
      (fun (o : Option (Comm)) r => o.bind (turnOf left answer · r))
      (some { s with ret := 0 }) ENG_BUF_LEN [] (tmpBuf read).bytes 0 (Buffer.fill ENG_BUF_LEN 0)
    rw [List.foldl_nil] at hloop
    rw [if_neg hread, if_neg hread, hloop, ← Option.bind_id_eq_join, Option.bind_map]
    congr 1
    funext batch
    exact foldl_bind _ _ batch

theorem call_spec {s : Comm} (hidle : s.Idle) {read : List UInt8}
    (huniform : s.UniformCall left read) (hserved : s.ServedCall left answer read)
    {batch : List Sent} (hbatch : batchOf read = some batch) :
    ∃ s' replies, s.call left answer read = some s' ∧ s'.replies = s.replies ++ replies ∧
      DueReplies left answer s.atOneint s.turn batch replies ∧ s'.Idle := by
  rw [call_eq, hbatch, Option.bind_some]
  exact turns_spec batch { s with ret := 0 } hidle (Or.inl rfl) (huniform batch hbatch)
    (hserved batch hbatch)

/-- A request with a command behind one without costs a client its answer. -/
theorem uniformCall_of_corresponds {s : Comm} {read : List UInt8}
    (h : s.Corresponds left answer read) : s.UniformCall left read := by
  intro batch hbatch
  obtain ⟨s', -, hcall, -, -, hquiet⟩ := h batch hbatch
  rw [call_eq, hbatch, Option.bind_some] at hcall
  exact uniform_of_quiet batch { s with ret := 0 } s' hcall hquiet

theorem idle_callStep {o : Option (Comm)} {read : List UInt8}
    (h : Alive (fun s => s.UniformCall left read ∧ s.ServedCall left answer read) o)
    (hidle : Alive Idle o) : Alive Idle (callStep left answer o read) := by
  intro s' hs'
  obtain ⟨s, rfl, hcall⟩ := Option.bind_eq_some_iff.mp hs'
  have hbatch := hcall
  rw [call_eq] at hbatch
  obtain ⟨batch, hbatch, -⟩ := Option.bind_eq_some_iff.mp hbatch
  obtain ⟨huniform, hserved⟩ := h s rfl
  obtain ⟨t, -, ht, -, -, hidle'⟩ :=
    call_spec left answer (hidle s rfl) huniform hserved hbatch
  rw [hcall, Option.some_inj] at ht
  rw [ht]
  exact hidle'

/-- Over every run of calls, from a state in which nothing is left to read: each client is
sent the text of its own answer and each call leaves nothing to read, when every batch is
uniform and served; and only when every batch is uniform. -/
theorem corresponds_run {s : Comm} (hidle : s.Idle) (reads : List (List UInt8)) :
    (Run.Meets (callStep left answer)
        (fun o read => Alive (fun s => s.UniformCall left read ∧
          s.ServedCall left answer read) o) (some s) reads →
      Run.Meets (callStep left answer)
        (fun o read => Alive (fun s => s.Corresponds left answer read) o)
        (some s) reads) ∧
      (Run.Meets (callStep left answer)
          (fun o read => Alive (fun s => s.Corresponds left answer read) o)
          (some s) reads →
        Run.Meets (callStep left answer)
          (fun o read => Alive (fun s => s.UniformCall left read) o) (some s) reads) := by
  constructor
  · intro hmeets
    have hstart : Alive Idle (some s) := by
      intro t ht
      cases ht
      exact hidle
    refine Run.Meets.of_invariant
      (fun o read h hinv => idle_callStep left answer h hinv) ?_ hmeets hstart
    intro o read h hinv t ht batch hbatch
    obtain ⟨huniform, hserved⟩ := h t ht
    obtain ⟨s', replies, hcall, hreplies, hdue, hquiet⟩ :=
      call_spec left answer (hinv t ht) huniform hserved hbatch
    exact ⟨s', replies, hcall, hreplies, hdue, hquiet.2⟩
  · apply Run.Meets.mono
    intro o read h t ht
    exact uniformCall_of_corresponds left answer (h t ht)

end Comm

end Turns

/-! ## A batch of two -/

def cleared (_ : ℕ) : Leftover := ⟨⟨0, Printf.Outside.zero⟩, ⟨fun _ => 0, []⟩⟩

def modemVersionBlock : Block where
  lines := [⟨[13, 10], [88], 13, by simp [isNewline], by decide, by simp [isNewline], by decide,
    by decide, rfl⟩]
  final := ⟨[10, 13, 10], [79, 75], 13, by simp [isNewline], by decide, by simp [isNewline],
    by decide, by decide, rfl⟩
  trail := [10]
  not_final := by decide
  is_final := by decide
  trail_newline := by simp [isNewline]

def modemVersionAnswer (_ : ℕ) : Answer :=
  ⟨modemVersionBlock, [modemVersionBlock.bytes], true, List.flatten_singleton⟩

def Comm.start : Comm :=
  { atOneint := 0, parcel := .clear, atBuffer := [], modem := fun _ => [], turn := 0,
    replies := [], ret := 0 }

theorem Comm.idle_start : Comm.start.Idle := ⟨rfl, by simp [start], by simp [start]⟩

def modemVersion (fd : ℤ) : Sent := ⟨fd, 0, [48, 44, 48]⟩

def modemVersionCommand : Command := ⟨0, ofAscii "AT+CGMM".toList⟩

theorem commandOf_modemVersion (turn : ℕ) (fd : ℤ) :
    commandOf cleared 0 turn (modemVersion fd) = some (0, modemVersionCommand) := by
  rfl

theorem gives_modemVersion : modemVersionBlock.Gives 0 [88] := by
  rw [Block.Gives, if_neg (by decide)]
  refine ⟨_, rfl, @settled_of_response 0 .requestModemVersion _ _ (by decide +kernel) rfl ?_⟩
  intro stack
  change firstContent _ = _
  decide +kernel

theorem readable_modemVersion {s : Comm} (hbuf : s.atBuffer = [])
    (hmodem : ∀ sim2, s.modem sim2 = []) (r : Sent) :
    s.Readable r modemVersionCommand (modemVersionAnswer 0) where
  in_time := Or.inr rfl
  lines := fun _ => {
    room := by
      rw [hbuf, hmodem]
      decide
    special := fun h => absurd h (by decide) }
  raw := fun h => absurd h (by decide)

theorem served_modemVersion {s : Comm} (hatOneint : s.atOneint = 0) (hbuf : s.atBuffer = [])
    (hmodem : ∀ sim2, s.modem sim2 = []) {fd : ℤ} (hfits : FitsTmp fd [88]) :
    s.Served cleared modemVersionAnswer (modemVersion fd) := by
  refine ⟨(0, modemVersionCommand), [88], ?_, gives_modemVersion, hfits, fun _ =>
    readable_modemVersion hbuf hmodem _⟩
  rw [hatOneint]
  exact commandOf_modemVersion _ fd

/-- A batch of one request: the client gets `"X"`. -/
theorem corresponds_run_single :
    Run.Meets (Comm.callStep cleared modemVersionAnswer)
      (fun o read => Comm.Alive
        (fun s => s.Corresponds cleared modemVersionAnswer read) o)
      (some Comm.start) [sendData 7 0 [48, 44, 48]] := by
  apply (Comm.corresponds_run _ _ Comm.idle_start _).1
  have hbatch : batchOf (sendData 7 0 [48, 44, 48]) = some [modemVersion 7] := by decide +kernel
  refine ⟨?_, trivial⟩
  rintro _ ⟨⟩
  refine ⟨fun batch h => ?_, fun batch h => ?_⟩
  · rw [hbatch] at h
    cases h
    exact List.pairwise_singleton _ _
  · rw [hbatch] at h
    cases h
    exact ⟨served_modemVersion rfl rfl (fun _ => rfl) (by decide +kernel), fun _ _ => trivial⟩

/-- `"63,0"` of one client and `"0,0"` of another: there is no command 63, and the answer to
the second request stays in the modem's stream. -/
theorem not_corresponds_pair :
    Comm.start.Idle ∧
      Comm.start.ServedCall cleared modemVersionAnswer
        (sendData 7 0 [54, 51, 44, 48] ++ sendData 8 0 [48, 44, 48]) ∧
      ¬ Comm.start.Corresponds cleared modemVersionAnswer
        (sendData 7 0 [54, 51, 44, 48] ++ sendData 8 0 [48, 44, 48]) := by
  have hbatch : batchOf (sendData 7 0 [54, 51, 44, 48] ++ sendData 8 0 [48, 44, 48]) =
      some [⟨7, 0, [54, 51, 44, 48, 32, 32]⟩, modemVersion 8] := by
    decide +kernel
  have hnone : commandOf cleared 0 0 ⟨7, 0, [54, 51, 44, 48, 32, 32]⟩ = some (0, ⟨63, []⟩) := rfl
  refine ⟨Comm.idle_start, fun batch h => ?_, fun h => ?_⟩
  · rw [hbatch] at h
    cases h
    refine ⟨⟨_, _, hnone, rfl, by decide +kernel, fun h => absurd rfl h⟩, fun s' hs' => ?_⟩
    rw [Comm.turnOf_of_error hnone (Or.inr rfl), Comm.write2server_eq_some_iff] at hs'
    obtain ⟨-, rfl⟩ := hs'
    exact ⟨served_modemVersion rfl rfl (fun _ => rfl) (by decide +kernel), fun _ _ => trivial⟩
  · have huniform := Comm.uniformCall_of_corresponds _ _ h _ hbatch
    change (commands cleared 0 0 _).Pairwise _ at huniform
    rw [Comm.commands_cons hnone,
      Comm.commands_cons (commandOf_modemVersion 1 8)] at huniform
    exact absurd ((List.pairwise_cons.mp huniform).1 _ List.mem_cons_self rfl) (by decide)

end Engcs

end Tarako
