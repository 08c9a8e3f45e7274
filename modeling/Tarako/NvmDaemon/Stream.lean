import Tarako.NvmDaemon.NvItem

/-!
# Headers and payloads of the request stream

The pipe carries requests one after the other, a header and then its payload, and
the daemon has to find the headers in it. It interprets a header whatever the number
of bytes its `read` has returned, and a failing `write` to a runtime file makes it read
a part of the payload twice over. `synchronised` says that apart from these steps, and
from requests whose size or type the loop does not take, the daemon interprets exactly
the headers of the stream.
-/

namespace Tarako

namespace NvmDaemon

/-! ## Requests on the wire -/

/-- A request as the modem sends it: a data request has a payload of the size that its
header gives, a sync command has none. -/
structure Request where
  header : RequestHeader
  payload : List UInt8
  length_payload : payload.length = if header.reqType = 1 then 0 else header.size.toNat

def Request.bytes (r : Request) : List UInt8 := r.header.encode ++ r.payload

def wire (rs : List Request) : List UInt8 := rs.flatMap Request.bytes

/-- The requests whose payload the loop reads: sync commands, and data requests of a
known type with a size that stays positive as an `int`. -/
def Request.Handled (r : Request) : Prop :=
  r.header.reqType = 1 ∨
    (r.header.type = 0 ∨ r.header.type = 1 ∨ r.header.type = 2) ∧
      r.header.size.toNat < 2147483648

theorem wire_append (rs ts : List Request) : wire (rs ++ ts) = wire rs ++ wire ts := by
  simp [wire]

theorem wire_cons (r : Request) (rs : List Request) :
    wire (r :: rs) = r.header.encode ++ (r.payload ++ wire rs) := by
  simp [wire, Request.bytes]

/-! ## What the daemon has read -/

def consumed : List Action → List UInt8
  | [] => []
  | .readHeader bytes :: trace => consumed trace ++ bytes
  | .readPayload bytes :: trace => consumed trace ++ bytes
  | _ :: trace => consumed trace

def interpreted : List Action → List RequestHeader
  | [] => []
  | .interpret h :: trace => interpreted trace ++ [h]
  | _ :: trace => interpreted trace

/-- The condition on a step: the pipe is not reset, a header is read whole, and no
`write` to a runtime file fails. -/
def ReadsWhole (s : State) (e : Env) : Prop :=
  e.read ≠ some [] ∧
    (s.control = .header → ∀ bytes, e.read = some bytes → headerSize ≤ bytes.length) ∧
      (s.control = .payload → s.length = .runtime →
        0 ≤ e.writeRuntime ∧ 0 ≤ e.writeRuntimeBackup)

/-! ## Actions that read nothing -/

def Action.Internal : Action → Prop
  | .readHeader _ => False
  | .interpret _ => False
  | .readPayload _ => False
  | _ => True

/-- The trace has grown by internal actions. -/
def Extends (trace trace' : List Action) : Prop :=
  ∃ new, trace' = new ++ trace ∧ ∀ a ∈ new, a.Internal

namespace Extends

theorem refl (trace : List Action) : Extends trace trace :=
  ⟨[], rfl, List.forall_mem_nil _⟩

theorem cons {trace trace' : List Action} (h : Extends trace trace') {a : Action}
    (ha : a.Internal) : Extends trace (a :: trace') := by
  obtain ⟨new, rfl, hnew⟩ := h
  exact ⟨a :: new, rfl, List.forall_mem_cons.mpr ⟨ha, hnew⟩⟩

theorem trans {a b c : List Action} (hab : Extends a b) (hbc : Extends b c) : Extends a c := by
  obtain ⟨new, rfl, hnew⟩ := hab
  obtain ⟨new', rfl, hnew'⟩ := hbc
  refine ⟨new' ++ new, (List.append_assoc ..).symm, fun x hx => ?_⟩
  rcases List.mem_append.mp hx with hx | hx
  · exact hnew' x hx
  · exact hnew x hx

theorem consumed_eq {trace trace' : List Action} (h : Extends trace trace') :
    consumed trace' = consumed trace := by
  obtain ⟨new, rfl, hnew⟩ := h
  induction new with
  | nil => rfl
  | cons a new ih =>
      obtain ⟨ha, hrest⟩ := List.forall_mem_cons.mp hnew
      cases a with
      | readHeader => exact ha.elim
      | interpret => exact ha.elim
      | readPayload => exact ha.elim
      | _ => exact ih hrest

theorem interpreted_eq {trace trace' : List Action} (h : Extends trace trace') :
    interpreted trace' = interpreted trace := by
  obtain ⟨new, rfl, hnew⟩ := h
  induction new with
  | nil => rfl
  | cons a new ih =>
      obtain ⟨ha, hrest⟩ := List.forall_mem_cons.mp hnew
      cases a with
      | readHeader => exact ha.elim
      | interpret => exact ha.elim
      | readPayload => exact ha.elim
      | _ => exact ih hrest

variable (s : State) (e : Env)

theorem complete : Extends s.trace (s.complete e).trace := by
  rcases s.complete_cases e with ⟨-, heq⟩ | ⟨-, heq⟩ | ⟨-, heq⟩
  · rw [heq]
    exact (refl _).cons trivial
  · rw [heq]
    exact (refl _).cons trivial
  · rw [heq]
    exact refl _

theorem loopTest : Extends s.trace (s.loopTest e).trace := by
  rcases s.loopTest_cases e with ⟨-, heq⟩ | ⟨-, heq⟩
  · rw [heq]
    exact refl _
  · rw [heq]
    exact complete s e

theorem sync : Extends s.trace (s.sync e).trace := by
  simp only [State.sync]
  split_ifs
  · refine cons (cons (refl _) ?_) ?_
    · trivial
    · trivial
  · refine cons (refl _) ?_
    trivial

theorem openFixnv : Extends s.trace (s.openFixnv e).trace := by
  rcases s.openFixnv_cases e with ⟨buffer, heq⟩ | ⟨indexvalue, heq⟩
  · rw [heq]
    exact refl _
  · rw [heq]
    refine trans (cons (refl _) ?_) (loopTest _ e)
    trivial

theorem openRuntime : Extends s.trace (s.openRuntime e).trace := by
  rcases s.openRuntime_cases e with heq | heq | heq
  · rw [heq]
    exact refl _
  · rw [heq]
    exact (refl _).cons trivial
  · rw [heq]
    refine trans (cons (cons (refl _) ?_) ?_) (loopTest _ e)
    · trivial
    · trivial

theorem openProductinfo : Extends s.trace (s.openProductinfo e).trace := by
  rcases s.openProductinfo_cases e with ⟨buffer, heq⟩ | ⟨indexvalue, heq⟩
  · rw [heq]
    exact refl _
  · rw [heq]
    refine trans (cons (refl _) ?_) (loopTest _ e)
    trivial

theorem interpret : Extends (.interpret s.header :: s.trace) (s.interpret e).trace := by
  rcases s.interpret_cases e with ⟨-, heq⟩ | ⟨-, ⟨-, heq⟩ | ⟨-, heq⟩ | ⟨-, heq⟩ | heq⟩
  · rw [heq]
    exact sync _ e
  · rw [heq]
    exact openFixnv _ e
  · rw [heq]
    exact openRuntime _ e
  · rw [heq]
    exact openProductinfo _ e
  · rw [heq]
    exact refl _

theorem storeFixnv (bytes : List UInt8) : Extends s.trace (s.storeFixnv bytes e).trace := by
  rcases s.storeFixnv_cases bytes e with heq | ⟨buffer, -, heq⟩
  · rw [heq]
    exact (refl _).cons trivial
  · rw [heq]
    refine trans (cons (refl _) ?_) (loopTest _ e)
    trivial

theorem storePhasecheck (bytes : List UInt8) :
    Extends s.trace (s.storePhasecheck bytes e).trace := by
  rcases s.storePhasecheck_cases bytes e with heq | ⟨buffer, -, heq⟩
  · rw [heq]
    exact (refl _).cons trivial
  · rw [heq]
    refine trans (cons (refl _) ?_) (loopTest _ e)
    trivial

theorem storeRuntime (bytes : List UInt8) : Extends s.trace (s.storeRuntime bytes e).trace := by
  rcases s.storeRuntime_cases bytes e with heq | heq | heq
  · rw [heq]
    exact refl _
  · rw [heq]
    exact (refl _).cons trivial
  · rw [heq]
    refine trans (cons (cons (refl _) ?_) ?_) (loopTest _ e)
    · trivial
    · trivial

theorem store (bytes : List UInt8) : Extends s.trace (s.store bytes e).trace := by
  rcases s.store_cases bytes e with ⟨-, heq⟩ | ⟨-, heq⟩ | ⟨-, heq⟩
  · rw [heq]
    exact storeRuntime s e bytes
  · rw [heq]
    exact storeFixnv s e bytes
  · rw [heq]
    exact storePhasecheck s e bytes

end Extends

/-! ## What is left of a payload -/

/-- What the test of the payload loop leads to when `total` bytes are left. -/
inductive LoopResult (total : Int) (s : State) : Prop
  | more (hpos : 0 < total) (hcontrol : s.control = .payload) (htotal : s.total = total)
  | done (hend : total ≤ 0) (hcontrol : s.control = .header)
  | stopped (hcontrol : s.control = .exited ∨ s.control = .fault)

namespace LoopResult

variable (s : State) (e : Env)

theorem loopTest {total : Int} (htotal : s.total = total) :
    LoopResult total (s.loopTest e) := by
  subst htotal
  rcases s.loopTest_cases e with ⟨hpos, heq⟩ | ⟨hend, heq⟩
  · rw [heq]
    exact .more hpos rfl rfl
  · rw [heq]
    exact .done hend (s.control_complete e)

theorem openFixnv : LoopResult s.header.total (s.openFixnv e) := by
  rcases s.openFixnv_cases e with ⟨buffer, heq⟩ | ⟨indexvalue, heq⟩
  · rw [heq]
    exact .stopped (Or.inl rfl)
  · rw [heq]
    exact loopTest _ e rfl

theorem openRuntime : LoopResult s.header.total (s.openRuntime e) := by
  rcases s.openRuntime_cases e with heq | heq | heq
  · rw [heq]
    exact .stopped (Or.inl rfl)
  · rw [heq]
    exact .stopped (Or.inl rfl)
  · rw [heq]
    exact loopTest _ e rfl

theorem openProductinfo : LoopResult s.header.total (s.openProductinfo e) := by
  rcases s.openProductinfo_cases e with ⟨buffer, heq⟩ | ⟨indexvalue, heq⟩
  · rw [heq]
    exact .stopped (Or.inl rfl)
  · rw [heq]
    exact loopTest _ e rfl

theorem storeFixnv (bytes : List UInt8) :
    LoopResult (s.total - bytes.length) (s.storeFixnv bytes e) := by
  rcases s.storeFixnv_cases bytes e with heq | ⟨buffer, -, heq⟩
  · rw [heq]
    exact .stopped (Or.inr rfl)
  · rw [heq]
    exact loopTest _ e rfl

theorem storePhasecheck (bytes : List UInt8) :
    LoopResult (s.total - bytes.length) (s.storePhasecheck bytes e) := by
  rcases s.storePhasecheck_cases bytes e with heq | ⟨buffer, -, heq⟩
  · rw [heq]
    exact .stopped (Or.inr rfl)
  · rw [heq]
    exact loopTest _ e rfl

variable {e}

theorem storeRuntime (bytes : List UInt8) (hwrite : 0 ≤ e.writeRuntime)
    (hbackup : 0 ≤ e.writeRuntimeBackup) :
    LoopResult (s.total - bytes.length) (s.storeRuntime bytes e) := by
  rw [State.storeRuntime_of_nonneg hwrite hbackup]
  exact loopTest _ e rfl

theorem store (bytes : List UInt8)
    (hwrites : s.length = .runtime → 0 ≤ e.writeRuntime ∧ 0 ≤ e.writeRuntimeBackup) :
    LoopResult (s.total - bytes.length) (s.store bytes e) := by
  rcases s.store_cases bytes e with ⟨hlength, heq⟩ | ⟨-, heq⟩ | ⟨-, heq⟩
  · rw [heq]
    exact storeRuntime s bytes (hwrites hlength).1 (hwrites hlength).2
  · rw [heq]
    exact storeFixnv s e bytes
  · rw [heq]
    exact storePhasecheck s e bytes

end LoopResult

/-! ## In step with the stream -/

/-- Where the daemon stands in the stream `rs`. In a payload, `p` has been read of it
and `q` is left. -/
inductive Position (rs : List Request) (s : State) : Prop
  | header (done rest : List Request) (hcontrol : s.control = .header)
      (hrs : rs = done ++ rest) (hheaders : interpreted s.trace = done.map Request.header)
      (hbytes : consumed s.trace = wire done)
  | payload (done : List Request) (r : Request) (rest : List Request) (p q : List UInt8)
      (hcontrol : s.control = .payload) (hrs : rs = done ++ r :: rest)
      (hheaders : interpreted s.trace = (done ++ [r]).map Request.header)
      (hbytes : consumed s.trace = wire done ++ (r.header.encode ++ p))
      (hpayload : r.payload = p ++ q) (htotal : s.total = q.length)
  | stopped (hcontrol : s.control = .exited ∨ s.control = .fault)
      (hheaders : interpreted s.trace <+: rs.map Request.header)

namespace Position

variable {rs : List Request} {s : State}

theorem of_loopResult {done rest : List Request} {r : Request} {p q : List UInt8}
    (hrs : rs = done ++ r :: rest)
    (hheaders : interpreted s.trace = (done ++ [r]).map Request.header)
    (hbytes : consumed s.trace = wire done ++ (r.header.encode ++ p))
    (hpayload : r.payload = p ++ q) (hloop : LoopResult q.length s) : Position rs s := by
  cases hloop with
  | more hpos hcontrol htotal =>
      exact .payload done r rest p q hcontrol hrs hheaders hbytes hpayload htotal
  | done hend hcontrol =>
      have hq : q = [] := List.length_eq_zero_iff.mp (by omega)
      subst hq
      refine .header (done ++ [r]) rest hcontrol (by simp [hrs]) hheaders ?_
      rw [hbytes, wire_append, wire_cons, hpayload]
      simp [wire]
  | stopped hcontrol =>
      refine .stopped hcontrol ?_
      rw [hheaders, hrs]
      exact ⟨rest.map Request.header, by simp⟩

/-- The next request of the stream, and its header in the bytes just read. -/
theorem exists_request {done rest : List Request} {bytes : List UInt8}
    (hsize : headerSize ≤ bytes.length)
    (hwire : wire done ++ bytes.take headerSize <+: wire (done ++ rest)) :
    ∃ r rest', rest = r :: rest' ∧ bytes.take headerSize = r.header.encode := by
  have hlen : (bytes.take headerSize).length = headerSize := by
    rw [List.length_take, Nat.min_eq_left hsize]
  rw [wire_append, List.prefix_append_right_inj] at hwire
  cases rest with
  | nil =>
      have hle := hwire.length_le
      rw [hlen] at hle
      exact absurd hle (by decide)
  | cons r rest' =>
      refine ⟨r, rest', rfl, ?_⟩
      rw [wire_cons] at hwire
      obtain ⟨tail, htail⟩ := hwire
      exact (List.append_inj htail (hlen.trans r.header.length_encode.symm)).1

theorem loopResult_interpret (hcontrol : s.control = .header) {r : Request}
    (hheader : s.header = r.header) (hr : r.Handled) (e : Env) :
    LoopResult r.payload.length (s.interpret e) := by
  rw [r.length_payload]
  by_cases hsync : r.header.reqType = 1
  · rw [if_pos hsync, State.interpret_of_sync (hheader ▸ hsync)]
    exact .done (Int.le_refl 0) ((State.control_sync _ e).trans hcontrol)
  · obtain ⟨htype, hsize⟩ := hr.resolve_left hsync
    have htotal : r.header.total = r.header.size.toNat := if_pos hsize
    have hsync' : s.header.reqType ≠ 1 := hheader ▸ hsync
    rw [if_neg hsync, ← htotal, ← hheader]
    rw [← hheader] at htype
    rcases htype with hfixnv | hruntime | hproduct
    · rw [State.interpret_of_fixnv hsync' hfixnv]
      exact LoopResult.openFixnv (s.log (.interpret s.header)) e
    · rw [State.interpret_of_runtime hsync' hruntime]
      exact LoopResult.openRuntime (s.log (.interpret s.header)) e
    · rw [State.interpret_of_productinfo hsync' hproduct]
      exact LoopResult.openProductinfo (s.log (.interpret s.header)) e

theorem step_header {done rest : List Request} (hcontrol : s.control = .header)
    (hrs : rs = done ++ rest) (hheaders : interpreted s.trace = done.map Request.header)
    (hbytes : consumed s.trace = wire done) (hhandled : ∀ r ∈ rs, r.Handled) {e : Env}
    (he : ReadsWhole s e) (hwire : consumed (s.step e).trace <+: wire rs) :
    Position rs (s.step e) := by
  cases hread : e.read with
  | none =>
      rw [State.step_of_none hread]
      exact .header done rest hcontrol hrs hheaders hbytes
  | some bytes =>
      have hsize := he.2.1 hcontrol bytes hread
      have hne : bytes ≠ [] := by
        rintro rfl
        exact he.1 hread
      have hextends := Extends.interpret (s.receive bytes) e
      rw [State.step_of_read hcontrol hread hne] at hwire ⊢
      have hconsumed : consumed ((s.receive bytes).interpret e).trace =
          wire done ++ bytes.take headerSize := by
        rw [hextends.consumed_eq, ← hbytes]
        rfl
      rw [hconsumed, hrs] at hwire
      obtain ⟨r, rest', rfl, hencode⟩ := exists_request hsize hwire
      have hheader := s.header_receive hencode
      have hmem : r ∈ rs := by
        rw [hrs]
        simp
      have hloop : LoopResult r.payload.length ((s.receive bytes).interpret e) := by
        refine loopResult_interpret ?_ hheader (hhandled r hmem) e
        exact hcontrol
      refine of_loopResult (p := []) (q := r.payload) hrs ?_ ?_ rfl hloop
      · rw [hextends.interpreted_eq, hheader]
        change interpreted s.trace ++ [r.header] = _
        rw [hheaders, List.map_append, List.map_singleton]
      · rw [hconsumed, hencode, List.append_nil]

theorem step_payload {done rest : List Request} {r : Request} {p q : List UInt8}
    (hcontrol : s.control = .payload) (hrs : rs = done ++ r :: rest)
    (hheaders : interpreted s.trace = (done ++ [r]).map Request.header)
    (hbytes : consumed s.trace = wire done ++ (r.header.encode ++ p))
    (hpayload : r.payload = p ++ q) (htotal : s.total = q.length) {e : Env}
    (he : ReadsWhole s e) (hwire : consumed (s.step e).trace <+: wire rs) :
    Position rs (s.step e) := by
  cases hread : e.read with
  | none =>
      rw [State.step_of_none hread]
      exact .payload done r rest p q hcontrol hrs hheaders hbytes hpayload htotal
  | some bytes =>
      have hne : bytes ≠ [] := by
        rintro rfl
        exact he.1 hread
      have hcount := s.length_chunk_le (by omega) bytes
      rw [State.step_of_payload hcontrol hread hne] at hwire ⊢
      have hextends := Extends.store (s.log (.readPayload (s.chunk bytes))) e (s.chunk bytes)
      have hconsumed : consumed ((s.log (.readPayload (s.chunk bytes))).store
          (s.chunk bytes) e).trace = wire done ++ (r.header.encode ++ (p ++ s.chunk bytes)) := by
        rw [hextends.consumed_eq]
        change consumed s.trace ++ s.chunk bytes = _
        rw [hbytes]
        simp
      obtain ⟨q', hq⟩ : s.chunk bytes <+: q := by
        rw [hconsumed, hrs, wire_append, wire_cons, hpayload, List.append_assoc,
          List.prefix_append_right_inj, List.prefix_append_right_inj,
          List.prefix_append_right_inj] at hwire
        exact List.prefix_of_prefix_length_le hwire (List.prefix_append q (wire rest)) (by omega)
      have hloop : LoopResult q'.length ((s.log (.readPayload (s.chunk bytes))).store
          (s.chunk bytes) e) := by
        have hleft : ((q'.length : ℕ) : Int) = s.total - (s.chunk bytes).length := by
          rw [htotal, ← hq, List.length_append]
          omega
        rw [hleft]
        exact LoopResult.store (s.log (.readPayload (s.chunk bytes))) (s.chunk bytes)
          (he.2.2 hcontrol)
      refine of_loopResult hrs ?_ hconsumed (by rw [hpayload, ← hq, List.append_assoc]) hloop
      rw [hextends.interpreted_eq]
      exact hheaders

end Position

/-! ## Runs -/

theorem consumed_append (new trace : List Action) :
    consumed (new ++ trace) = consumed trace ++ consumed new := by
  induction new with
  | nil => simp [consumed]
  | cons a new ih => cases a <;> simp [consumed, ih]

theorem State.trace_suffix_step (s : State) (e : Env) : s.trace <:+ (s.step e).trace := by
  rcases s.step_cases e with heq | ⟨-, heq⟩ | ⟨bytes, -, -, -, heq⟩ | ⟨bytes, -, -, -, heq⟩
  · rw [heq]
  · rw [heq]
    exact List.suffix_rfl
  · obtain ⟨new, hnew, -⟩ := Extends.interpret (s.receive bytes) e
    rw [heq, hnew]
    refine List.IsSuffix.trans ?_ (List.suffix_append new _)
    exact (List.suffix_cons _ _).trans (List.suffix_cons _ _)
  · obtain ⟨new, hnew, -⟩ := Extends.store (s.log (.readPayload (s.chunk bytes))) e
      (s.chunk bytes)
    rw [heq, hnew]
    refine List.IsSuffix.trans ?_ (List.suffix_append new _)
    exact List.suffix_cons _ _

theorem State.consumed_prefix_step (s : State) (e : Env) :
    consumed s.trace <+: consumed (s.step e).trace := by
  obtain ⟨new, hnew⟩ := s.trace_suffix_step e
  rw [← hnew, consumed_append]
  exact List.prefix_append _ _

theorem Position.step {rs : List Request} {s : State} {e : Env}
    (hhandled : ∀ r ∈ rs, r.Handled) (he : ReadsWhole s e)
    (h : consumed s.trace <+: wire rs → Position rs s)
    (hwire : consumed (s.step e).trace <+: wire rs) : Position rs (s.step e) := by
  have hpos := h ((s.consumed_prefix_step e).trans hwire)
  cases hpos with
  | header done rest hcontrol hrs hheaders hbytes =>
      exact step_header hcontrol hrs hheaders hbytes hhandled he hwire
  | payload done r rest p q hcontrol hrs hheaders hbytes hpayload htotal =>
      exact step_payload hcontrol hrs hheaders hbytes hpayload htotal he hwire
  | stopped hcontrol hheaders =>
      rw [State.step_of_stopped hcontrol]
      exact .stopped hcontrol hheaders

end NvmDaemon

end Tarako
