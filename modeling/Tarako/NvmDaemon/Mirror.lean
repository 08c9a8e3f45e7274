import Tarako.NvmDaemon.NvItem

/-!
# The two runtime NV files

The payload of a request for the runtime NV goes to two files, each through its own
descriptor. The results of the two `write`s are only tested for being negative: a
short one leaves its file behind, and a failing one drops the chunk for the file
behind it. `run_mirrored` says that the files agree on every completed request as long
as both of them take every chunk whole.
-/

namespace Tarako

namespace NvmDaemon

open Splice

/-! ## What the files should hold -/

def currentHeader : List Action → Option RequestHeader
  | [] => none
  | .interpret h :: _ => some h
  | _ :: trace => currentHeader trace

def payloadRead : List Action → List UInt8
  | [] => []
  | .interpret _ :: _ => []
  | .readPayload bytes :: trace => payloadRead trace ++ bytes
  | _ :: trace => payloadRead trace

/-- When a request for the runtime NV has just completed, both files hold its payload
in its range. -/
def Mirrored (s : State) : Prop :=
  ∀ trace h, s.trace = .runtimeDone :: trace → currentHeader trace = some h →
    ∀ i < h.size.toNat, ∃ b, (payloadRead trace)[i]? = some b ∧
      s.runtimenv[h.offset.toNat + i]? = some b ∧ s.runtimenvbkup[h.offset.toNat + i]? = some b

/-- The condition on a step: a request for the runtime NV has an offset that `lseek`
accepts and a size that stays positive as an `int`, and both files take every chunk
whole. -/
def WritesWhole (s : State) (e : Env) : Prop :=
  (s.control = .header → ∀ bytes, e.read = some bytes →
    (s.receive bytes).header.reqType ≠ 1 → (s.receive bytes).header.type = 1 →
      (s.receive bytes).header.offset.toNat < 2147483648 ∧
        (s.receive bytes).header.size.toNat < 2147483648) ∧
  (s.control = .payload → s.length = .runtime → ∀ bytes, e.read = some bytes →
    ((s.chunk bytes).length : Int) ≤ e.writeRuntime ∧
      ((s.chunk bytes).length : Int) ≤ e.writeRuntimeBackup)

/-- The payload loop for the runtime NV: what has been read of the payload is in both
files, and both descriptors stand behind it. -/
structure Copied (s : State) (h : RequestHeader) : Prop where
  header : currentHeader s.trace = some h
  pos : s.runtimePos = h.offset.toNat + (payloadRead s.trace).length
  backupPos : s.runtimeBackupPos = h.offset.toNat + (payloadRead s.trace).length
  primary : (s.runtimenv.drop h.offset.toNat).take (payloadRead s.trace).length =
    payloadRead s.trace
  backup : (s.runtimenvbkup.drop h.offset.toNat).take (payloadRead s.trace).length =
    payloadRead s.trace
  total : s.total + (payloadRead s.trace).length = h.size.toNat
  total_nonneg : 0 ≤ s.total

structure MirrorInv (s : State) : Prop where
  mirrored : Mirrored s
  loop : s.control = .payload → s.length = .runtime → ∃ h, Copied s h

theorem mirrored_of_head {s : State} {a : Action} (hhead : s.trace.head? = some a)
    (ha : a ≠ .runtimeDone) : Mirrored s := by
  intro trace h hdone
  rw [hdone, List.head?_cons] at hhead
  exact absurd (Option.some.inj hhead).symm ha

theorem getElem?_of_take_drop {file payload : List UInt8} {off : ℕ}
    (h : (file.drop off).take payload.length = payload) {i : ℕ} (hi : i < payload.length) :
    file[off + i]? = payload[i]? := by
  conv_rhs => rw [← h]
  rw [List.getElem?_take_of_lt hi, List.getElem?_drop]

namespace MirrorInv

variable {s : State}

theorem of_control_ne (hmirrored : Mirrored s) (hcontrol : s.control ≠ .payload) :
    MirrorInv s :=
  ⟨hmirrored, fun hpayload => absurd hpayload hcontrol⟩

theorem loopTest_of_ne (hlength : s.length ≠ .runtime) {a : Action}
    (hhead : s.trace.head? = some a) (ha : a ≠ .runtimeDone) (e : Env) :
    MirrorInv (s.loopTest e) := by
  rcases s.loopTest_cases e with ⟨-, heq⟩ | ⟨-, heq⟩
  · rw [heq]
    exact ⟨mirrored_of_head hhead ha, fun _ hruntime => absurd hruntime hlength⟩
  · rw [heq]
    refine of_control_ne ?_ (by rw [State.control_complete]; exact Control.noConfusion)
    rcases s.complete_cases e with ⟨hruntime, -⟩ | ⟨-, heq⟩ | ⟨-, heq⟩
    · exact absurd hruntime hlength
    · rw [heq]
      exact mirrored_of_head rfl Action.noConfusion
    · rw [heq]
      exact mirrored_of_head hhead ha

theorem loopTest_of_copied {h : RequestHeader} (hlength : s.length = .runtime)
    (hcopied : Copied s h) {a : Action}
    (hhead : s.trace.head? = some a) (ha : a ≠ .runtimeDone) (e : Env) :
    MirrorInv (s.loopTest e) := by
  have htotal := hcopied.total
  have hnonneg := hcopied.total_nonneg
  rcases s.loopTest_cases e with ⟨hpos, heq⟩ | ⟨hend, heq⟩
  · rw [heq]
    refine ⟨mirrored_of_head hhead ha, fun _ _ => ⟨h, ?_⟩⟩
    exact ⟨hcopied.header, hcopied.pos, hcopied.backupPos, hcopied.primary, hcopied.backup,
      htotal, hnonneg⟩
  · -- the payload has been read to its end
    rw [heq]
    have hlen : (payloadRead s.trace).length = h.size.toNat := by omega
    refine of_control_ne ?_ (by rw [State.control_complete]; exact Control.noConfusion)
    rw [State.complete, hlength]
    intro trace' h' hdone hheader i hi
    obtain ⟨-, rfl⟩ := List.cons.inj hdone
    obtain rfl : h = h' := Option.some.inj (hcopied.header.symm.trans hheader)
    rw [← hlen] at hi
    refine ⟨(payloadRead s.trace)[i], List.getElem?_eq_getElem hi, ?_, ?_⟩
    · exact (getElem?_of_take_drop hcopied.primary hi).trans (List.getElem?_eq_getElem hi)
    · exact (getElem?_of_take_drop hcopied.backup hi).trans (List.getElem?_eq_getElem hi)

/-! ### The header -/

theorem openFixnv {a : Action} (hhead : s.trace.head? = some a)
    (ha : a ≠ .runtimeDone) (e : Env) : MirrorInv (s.openFixnv e) := by
  rcases s.openFixnv_cases e with ⟨buffer, heq⟩ | ⟨indexvalue, heq⟩
  · rw [heq]
    exact of_control_ne (mirrored_of_head hhead ha) Control.noConfusion
  · rw [heq]
    refine loopTest_of_ne ?_ rfl ?_ e
    · exact NvImage.noConfusion
    · exact Action.noConfusion

theorem openProductinfo {a : Action} (hhead : s.trace.head? = some a)
    (ha : a ≠ .runtimeDone) (e : Env) : MirrorInv (s.openProductinfo e) := by
  rcases s.openProductinfo_cases e with ⟨buffer, heq⟩ | ⟨indexvalue, heq⟩
  · rw [heq]
    exact of_control_ne (mirrored_of_head hhead ha) Control.noConfusion
  · rw [heq]
    refine loopTest_of_ne ?_ rfl ?_ e
    · exact NvImage.noConfusion
    · exact Action.noConfusion

/-- Both files are opened at the offset of the request, before any of its payload. -/
theorem openRuntime (trace : List Action) (htrace : s.trace = .interpret s.header :: trace)
    (hoffset : s.header.offset.toNat < 2147483648) (hsize : s.header.size.toNat < 2147483648)
    (e : Env) : MirrorInv (s.openRuntime e) := by
  have hseek : State.lseek s.header.offset = s.header.offset.toNat := if_pos hoffset
  have htotal : s.header.total = s.header.size.toNat := if_pos hsize
  have hread : payloadRead s.trace = [] := by
    rw [htrace]
    rfl
  have hheader : currentHeader s.trace = some s.header := by
    rw [htrace]
    rfl
  rcases s.openRuntime_cases e with heq | heq | heq
  · rw [heq]
    refine of_control_ne (mirrored_of_head (a := .interpret s.header) ?_ ?_) Control.noConfusion
    · exact congrArg List.head? htrace
    · exact Action.noConfusion
  · rw [heq]
    exact of_control_ne (mirrored_of_head rfl Action.noConfusion) Control.noConfusion
  · rw [heq]
    refine loopTest_of_copied (h := s.header) ?_ ?_ rfl ?_ e
    · rfl
    case refine_3 => exact Action.noConfusion
    · refine ⟨hheader, ?_, ?_, ?_, ?_, ?_, ?_⟩
      · change State.lseek s.header.offset = _ + (payloadRead s.trace).length
        rw [hread, hseek]
        rfl
      · change State.lseek s.header.offset = _ + (payloadRead s.trace).length
        rw [hread, hseek]
        rfl
      · change List.take (payloadRead s.trace).length _ = payloadRead s.trace
        rw [hread]
        rfl
      · change List.take (payloadRead s.trace).length _ = payloadRead s.trace
        rw [hread]
        rfl
      · change s.header.total + (payloadRead s.trace).length = _
        rw [hread, htotal]
        rfl
      · change 0 ≤ s.header.total
        rw [htotal]
        exact Int.natCast_nonneg _

theorem interpret (hcontrol : s.control = .header)
    (hfits : s.header.reqType ≠ 1 → s.header.type = 1 →
      s.header.offset.toNat < 2147483648 ∧ s.header.size.toNat < 2147483648) (e : Env) :
    MirrorInv (s.interpret e) := by
  rcases s.interpret_cases e with
    ⟨-, heq⟩ | ⟨hsync, ⟨-, heq⟩ | ⟨hruntime, heq⟩ | ⟨-, heq⟩ | heq⟩
  · rw [heq]
    refine of_control_ne ?_ ?_
    · exact mirrored_of_head rfl Action.noConfusion
    · rw [State.control_sync]
      change s.control ≠ .payload
      rw [hcontrol]
      exact Control.noConfusion
  · rw [heq]
    exact openFixnv rfl Action.noConfusion e
  · rw [heq]
    refine openRuntime s.trace ?_ ?_ ?_ e
    · rfl
    · exact (hfits hsync hruntime).1
    · exact (hfits hsync hruntime).2
  · rw [heq]
    exact openProductinfo rfl Action.noConfusion e
  · rw [heq]
    refine of_control_ne (mirrored_of_head rfl Action.noConfusion) ?_
    change s.control ≠ .payload
    rw [hcontrol]
    exact Control.noConfusion

/-! ### The payload -/

theorem storeRuntime {h : RequestHeader} (hlength : s.length = .runtime) (hcopied : Copied s h)
    {bytes : List UInt8} (hcount : (bytes.length : Int) ≤ s.total) {e : Env}
    (hwrite : (bytes.length : Int) ≤ e.writeRuntime)
    (hbackup : (bytes.length : Int) ≤ e.writeRuntimeBackup) :
    MirrorInv ((s.log (.readPayload bytes)).storeRuntime bytes e) := by
  have htake : bytes.take e.writeRuntime.toNat = bytes := List.take_of_length_le (by omega)
  have htakeBackup : bytes.take e.writeRuntimeBackup.toNat = bytes :=
    List.take_of_length_le (by omega)
  have htotal := hcopied.total
  rw [State.storeRuntime_of_nonneg (by omega) (by omega), State.advance]
  refine loopTest_of_copied (h := h) ?_ ?_ rfl ?_ e
  case refine_1 => exact hlength
  case refine_3 => exact Action.noConfusion
  refine ⟨hcopied.header, ?_, ?_, ?_, ?_, ?_, ?_⟩
  · change s.runtimePos + (bytes.take e.writeRuntime.toNat).length =
      h.offset.toNat + (payloadRead s.trace ++ bytes).length
    rw [htake, hcopied.pos, List.length_append, Nat.add_assoc]
  · change s.runtimeBackupPos + (bytes.take e.writeRuntimeBackup.toNat).length =
      h.offset.toNat + (payloadRead s.trace ++ bytes).length
    rw [htakeBackup, hcopied.backupPos, List.length_append, Nat.add_assoc]
  · change ((writeAt 0 s.runtimenv s.runtimePos (bytes.take e.writeRuntime.toNat)).drop
      h.offset.toNat).take (payloadRead s.trace ++ bytes).length = payloadRead s.trace ++ bytes
    rw [htake, hcopied.pos]
    exact take_drop_writeAt 0 hcopied.primary bytes
  · change ((writeAt 0 s.runtimenvbkup s.runtimeBackupPos
      (bytes.take e.writeRuntimeBackup.toNat)).drop h.offset.toNat).take
        (payloadRead s.trace ++ bytes).length = payloadRead s.trace ++ bytes
    rw [htakeBackup, hcopied.backupPos]
    exact take_drop_writeAt 0 hcopied.backup bytes
  · change s.total - bytes.length + (payloadRead s.trace ++ bytes).length = (h.size.toNat : Int)
    rw [List.length_append]
    omega
  · change 0 ≤ s.total - (bytes.length : Int)
    omega

theorem store_of_ne {s : State} (hlength : s.length ≠ .runtime) (bytes : List UInt8) (e : Env) :
    MirrorInv (s.store bytes e) := by
  rcases s.store_cases bytes e with ⟨hruntime, -⟩ | ⟨-, heq⟩ | ⟨-, heq⟩
  · exact absurd hruntime hlength
  · rw [heq]
    rcases s.storeFixnv_cases bytes e with heq | ⟨buffer, -, heq⟩
    · rw [heq]
      exact of_control_ne (mirrored_of_head rfl Action.noConfusion) Control.noConfusion
    · rw [heq]
      refine loopTest_of_ne ?_ rfl ?_ e
      · exact hlength
      · exact Action.noConfusion
  · rw [heq]
    rcases s.storePhasecheck_cases bytes e with heq | ⟨buffer, -, heq⟩
    · rw [heq]
      exact of_control_ne (mirrored_of_head rfl Action.noConfusion) Control.noConfusion
    · rw [heq]
      refine loopTest_of_ne ?_ rfl ?_ e
      · exact hlength
      · exact Action.noConfusion

theorem reopenVbpipe (h : MirrorInv s) (e : Env) : MirrorInv (s.reopenVbpipe e) := by
  refine of_control_ne h.mirrored ?_
  rw [State.reopenVbpipe]
  split_ifs
  · exact Control.noConfusion
  · exact Control.noConfusion

theorem step (h : MirrorInv s) {e : Env} (he : WritesWhole s e) : MirrorInv (s.step e) := by
  rcases s.step_cases e with heq | ⟨-, heq⟩ | ⟨bytes, hheader, hread, -, heq⟩ |
    ⟨bytes, hpayload, hread, -, heq⟩
  · rw [heq]
    exact h
  · rw [heq]
    exact h.reopenVbpipe e
  · rw [heq]
    refine interpret ?_ (he.1 hheader bytes hread) e
    exact hheader
  · rw [heq]
    by_cases hlength : s.length = .runtime
    · obtain ⟨hd, hcopied⟩ := h.loop hpayload hlength
      obtain ⟨hwrite, hbackup⟩ := he.2 hpayload hlength bytes hread
      rw [State.store, State.length_log, hlength]
      exact storeRuntime hlength hcopied (s.length_chunk_le hcopied.total_nonneg bytes)
        hwrite hbackup
    · refine store_of_ne ?_ _ e
      exact hlength

theorem init (b : State.Boot) : MirrorInv (State.init b) :=
  of_control_ne (fun _ _ hdone => absurd hdone.symm (List.cons_ne_nil _ _)) Control.noConfusion

end MirrorInv

/-- In every run in which the files take every chunk whole, every completed request for
the runtime NV leaves its payload in both files. -/
theorem run_mirrored (b : State.Boot) (es fs : List Env) (hfs : fs <+: es)
    (hmeets : Run.Meets State.step WritesWhole (State.init b) es) :
    Mirrored (Run.run State.step (State.init b) fs) :=
  (Run.invariant_prefix (fun _ _ he h => h.step he) hfs hmeets (MirrorInv.init b)).mirrored

theorem run_mirrored_byte :
    Mirrored (Run.run State.step (State.init .empty)
      [.reads (RequestHeader.encode ⟨1, 0, 3, 1⟩), .reads [7]]) := by
  refine run_mirrored .empty _ _ List.prefix_rfl ⟨⟨?_, nofun⟩, ⟨nofun, ?_⟩, trivial⟩
  · intro _ bytes hread _ _
    rw [← Option.some.inj hread]
    decide
  · intro _ _ bytes hread
    rw [← Option.some.inj hread]
    decide

/-- The primary file takes one byte of a chunk of two: its second byte is never
written, and the request completes. -/
theorem not_run_mirrored_short :
    ¬ ∀ (b : State.Boot) (es : List Env),
      Mirrored (Run.run State.step (State.init b) es) := by
  intro h
  have hrun := h .empty [.reads (RequestHeader.encode ⟨1, 0, 0, 2⟩),
    { Env.reads [1, 2] with writeRuntime := 1 }] _ ⟨1, 0, 0, 2⟩ rfl rfl 1 (by decide)
  obtain ⟨b, -, hprimary, -⟩ := hrun
  exact absurd (Option.isSome_of_eq_some hprimary) (by decide)

end NvmDaemon

end Tarako
