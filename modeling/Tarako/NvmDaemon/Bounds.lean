import Tarako.NvmDaemon.NvItem

/-!
# The bounds of the NV images

The range of a request is compared with the size of its image, but the comparison
only writes to the log: the payload is copied to wherever the header says.
`inBounds_iff` gives the headers for which every access of their request stays
inside its image, whatever the chunks of the payload are; a negative result of a
`write` to the runtime files lets the other file run past its end as well.
-/

namespace Tarako

namespace NvmDaemon

open Splice

/-! ## What is to be kept -/

def Action.InBounds : Action → Prop
  | .memcpyFixnv offset count => offset.toNat + count ≤ FIXNV_SIZE
  | .memcpyPhasecheck offset count => offset.toNat + count ≤ PRODUCTINFO_SIZE
  | .seekRuntime target => target.toNat < RUNTIMENV_SIZE
  | .writeRuntime pos count => pos + count ≤ RUNTIMENV_SIZE
  | _ => True

def InBounds (trace : List Action) : Prop := ∀ a ∈ trace, a.InBounds

theorem inBounds_cons {a : Action} {trace : List Action} :
    InBounds (a :: trace) ↔ a.InBounds ∧ InBounds trace := List.forall_mem_cons

/-- The payload of the header, if any is read at all, ends inside an image. -/
def RequestHeader.RangeFits (h : RequestHeader) (limit : ℕ) : Prop :=
  h.total ≤ 0 ∨ h.offset.toNat + h.size.toNat ≤ limit

/-- The headers that are safe: the check that the daemon makes and ignores, without
the wrap of its sum. -/
structure HeaderFits (h : RequestHeader) : Prop where
  fixnv : h.reqType ≠ 1 → h.type = 0 → h.RangeFits FIXNV_SIZE
  runtime : h.reqType ≠ 1 → h.type = 1 →
    h.offset.toNat < RUNTIMENV_SIZE ∧ h.RangeFits RUNTIMENV_SIZE
  productinfo : h.reqType ≠ 1 → h.type = 2 → h.RangeFits PRODUCTINFO_SIZE

def RequestHeader.IsRuntimeData (h : RequestHeader) : Prop :=
  h.reqType ≠ 1 ∧ h.type = 1 ∧ 0 < h.total

/-- No `write` to a runtime file fails. -/
def Env.WritesSucceed (e : Env) : Prop := 0 ≤ e.writeRuntime ∧ 0 ≤ e.writeRuntimeBackup

/-- A turn inside the payload loop; what comes after the request is left out. -/
def State.payloadStep (s : State) (e : Env) : State :=
  if s.control = .payload then s.step e else s

/-- One request: the turn that reads its header, and turns of its payload loop. -/
def State.request (s : State) (e : Env) (es : List Env) : State :=
  Run.run State.payloadStep (s.step e) es

/-! ## A header that fits -/

/-- The rest of the payload fits behind the place where the next chunk goes. -/
structure Room (s : State) : Prop where
  fixnv : s.length = .fixnv → (s.fixnvBufferOffset.toNat : Int) + s.total ≤ FIXNV_SIZE
  runtime : s.length = .runtime → s.runtimePos + s.total ≤ RUNTIMENV_SIZE ∧
    s.runtimeBackupPos + s.total ≤ RUNTIMENV_SIZE
  productinfo : s.length = .productinfo →
    (s.phasecheckBufferOffset.toNat : Int) + s.total ≤ PRODUCTINFO_SIZE

structure FitInv (s : State) : Prop where
  bounds : InBounds s.trace
  total_pos : s.control = .payload → 0 < s.total
  room : s.control = .payload → Room s

theorem RequestHeader.offset_add_total_le {h : RequestHeader} {limit : ℕ}
    (hfits : h.RangeFits limit) (hpos : 0 < h.total) : h.offset.toNat + h.total ≤ limit := by
  rw [h.total_eq_size hpos]
  rcases hfits with hneg | hle
  · omega
  · exact_mod_cast hle

namespace FitInv

variable {s : State}

theorem of_control_header (h : InBounds s.trace) (hcontrol : s.control = .header) :
    FitInv s := by
  have hpayload : s.control ≠ .payload := by
    rw [hcontrol]
    exact Control.noConfusion
  exact ⟨h, fun hp => absurd hp hpayload, fun hp => absurd hp hpayload⟩

theorem complete (h : InBounds s.trace) (e : Env) : FitInv (s.complete e) := by
  refine of_control_header ?_ (s.control_complete e)
  rcases s.complete_cases e with ⟨-, heq⟩ | ⟨-, heq⟩ | ⟨-, heq⟩
  · rw [heq]
    exact inBounds_cons.mpr ⟨trivial, h⟩
  · rw [heq]
    exact inBounds_cons.mpr ⟨trivial, h⟩
  · rw [heq]
    exact h

theorem loopTest (h : InBounds s.trace) (hroom : 0 < s.total → Room s) (e : Env) :
    FitInv (s.loopTest e) := by
  rcases s.loopTest_cases e with ⟨hpos, heq⟩ | ⟨-, heq⟩
  · rw [heq]
    exact ⟨h, fun _ => hpos, fun _ => ⟨(hroom hpos).1, (hroom hpos).2, (hroom hpos).3⟩⟩
  · rw [heq]
    exact complete h e

theorem exit (h : InBounds s.trace) : FitInv s.exit :=
  ⟨h, Control.noConfusion, Control.noConfusion⟩

theorem reopenVbpipe (h : InBounds s.trace) (e : Env) : FitInv (s.reopenVbpipe e) := by
  rw [State.reopenVbpipe]
  split_ifs
  · exact ⟨h, Control.noConfusion, Control.noConfusion⟩
  · exact ⟨h, Control.noConfusion, Control.noConfusion⟩

/-! ### The header -/

theorem openFixnv (h : InBounds s.trace) (hfits : s.header.RangeFits FIXNV_SIZE) (e : Env) :
    FitInv (s.openFixnv e) := by
  rcases s.openFixnv_cases e with ⟨buffer, heq⟩ | ⟨indexvalue, heq⟩
  · rw [heq]
    exact ⟨h, Control.noConfusion, Control.noConfusion⟩
  · rw [heq]
    refine loopTest ?_ ?_ e
    · exact inBounds_cons.mpr ⟨trivial, h⟩
    · intro hpos
      exact ⟨fun _ => s.header.offset_add_total_le hfits hpos, NvImage.noConfusion,
        NvImage.noConfusion⟩

theorem openRuntime (h : InBounds s.trace) (hseek : s.header.offset.toNat < RUNTIMENV_SIZE)
    (hfits : s.header.RangeFits RUNTIMENV_SIZE) (e : Env) : FitInv (s.openRuntime e) := by
  have hsmall : State.lseek s.header.offset = s.header.offset.toNat := by
    rw [State.lseek, if_pos]
    rw [RUNTIMENV_SIZE] at hseek
    omega
  rcases s.openRuntime_cases e with heq | heq | heq
  · rw [heq]
    exact exit h
  · rw [heq]
    exact exit (inBounds_cons.mpr ⟨hseek, h⟩)
  · rw [heq]
    refine loopTest ?_ ?_ e
    · exact inBounds_cons.mpr ⟨hseek, inBounds_cons.mpr ⟨hseek, h⟩⟩
    · intro hpos
      have hle : (State.lseek s.header.offset : Int) + s.header.total ≤ RUNTIMENV_SIZE := by
        rw [hsmall]
        exact s.header.offset_add_total_le hfits hpos
      exact ⟨NvImage.noConfusion, fun _ => ⟨hle, hle⟩, NvImage.noConfusion⟩

theorem openProductinfo (h : InBounds s.trace) (hfits : s.header.RangeFits PRODUCTINFO_SIZE)
    (e : Env) : FitInv (s.openProductinfo e) := by
  rcases s.openProductinfo_cases e with ⟨buffer, heq⟩ | ⟨indexvalue, heq⟩
  · rw [heq]
    exact ⟨h, Control.noConfusion, Control.noConfusion⟩
  · rw [heq]
    refine loopTest ?_ ?_ e
    · exact inBounds_cons.mpr ⟨trivial, h⟩
    · intro hpos
      exact ⟨NvImage.noConfusion, NvImage.noConfusion,
        fun _ => s.header.offset_add_total_le hfits hpos⟩

theorem sync (h : InBounds s.trace) (hcontrol : s.control = .header) (e : Env) :
    FitInv (s.sync e) := by
  refine of_control_header ?_ ((s.control_sync e).trans hcontrol)
  simp only [State.sync]
  split_ifs
  · exact inBounds_cons.mpr ⟨trivial, inBounds_cons.mpr ⟨trivial, h⟩⟩
  · exact inBounds_cons.mpr ⟨trivial, h⟩

theorem interpret (h : InBounds s.trace) (hcontrol : s.control = .header)
    (hfits : HeaderFits s.header) (e : Env) : FitInv (s.interpret e) := by
  have hlog : InBounds (s.log (.interpret s.header)).trace := inBounds_cons.mpr ⟨trivial, h⟩
  rcases s.interpret_cases e with
    ⟨-, heq⟩ | ⟨hsync, ⟨hfixnv, heq⟩ | ⟨hruntime, heq⟩ | ⟨hproduct, heq⟩ | heq⟩
  · rw [heq]
    exact sync hlog hcontrol e
  · rw [heq]
    exact openFixnv hlog (hfits.fixnv hsync hfixnv) e
  · rw [heq]
    exact openRuntime hlog (hfits.runtime hsync hruntime).1 (hfits.runtime hsync hruntime).2 e
  · rw [heq]
    exact openProductinfo hlog (hfits.productinfo hsync hproduct) e
  · rw [heq]
    exact of_control_header hlog hcontrol

/-! ### The payload -/

theorem advance (h : InBounds s.trace) {count : ℕ}
    (hroom : (count : Int) < s.total → Room { s with total := s.total - count }) (e : Env) :
    FitInv (s.advance count e) := by
  rw [State.advance]
  refine loopTest ?_ ?_ e
  · exact h
  · intro hpos
    apply hroom
    change 0 < s.total - (count : Int) at hpos
    omega

theorem storeFixnv (h : InBounds s.trace) (hlength : s.length = .fixnv) (hroom : Room s)
    {bytes : List UInt8} (hcount : (bytes.length : Int) ≤ s.total) (e : Env) :
    FitInv (s.storeFixnv bytes e) := by
  have hle := hroom.fixnv hlength
  have hlog : InBounds (s.log (.memcpyFixnv s.fixnvBufferOffset bytes.length)).trace := by
    refine inBounds_cons.mpr ⟨?_, h⟩
    change s.fixnvBufferOffset.toNat + bytes.length ≤ FIXNV_SIZE
    omega
  rcases s.storeFixnv_cases bytes e with heq | ⟨buffer, -, heq⟩
  · rw [heq]
    exact ⟨hlog, Control.noConfusion, Control.noConfusion⟩
  · rw [heq]
    refine advance ?_ ?_ e
    · exact hlog
    · intro _
      refine ⟨fun _ => ?_, fun hother => absurd (hlength.symm.trans hother) (by decide),
        fun hother => absurd (hlength.symm.trans hother) (by decide)⟩
      change ((s.fixnvBufferOffset + UInt32.ofNat bytes.length).toNat : Int) +
        (s.total - bytes.length) ≤ FIXNV_SIZE
      rw [UInt32.toNat_add, UInt32.toNat_ofNat']
      rw [FIXNV_SIZE] at hle ⊢
      omega

theorem storePhasecheck (h : InBounds s.trace) (hlength : s.length = .productinfo)
    (hroom : Room s) {bytes : List UInt8} (hcount : (bytes.length : Int) ≤ s.total) (e : Env) :
    FitInv (s.storePhasecheck bytes e) := by
  have hle := hroom.productinfo hlength
  have hlog : InBounds
      (s.log (.memcpyPhasecheck s.phasecheckBufferOffset bytes.length)).trace := by
    refine inBounds_cons.mpr ⟨?_, h⟩
    change s.phasecheckBufferOffset.toNat + bytes.length ≤ PRODUCTINFO_SIZE
    omega
  rcases s.storePhasecheck_cases bytes e with heq | ⟨buffer, -, heq⟩
  · rw [heq]
    exact ⟨hlog, Control.noConfusion, Control.noConfusion⟩
  · rw [heq]
    refine advance ?_ ?_ e
    · exact hlog
    · intro _
      refine ⟨fun hother => absurd (hlength.symm.trans hother) (by decide),
        fun hother => absurd (hlength.symm.trans hother) (by decide), fun _ => ?_⟩
      change ((s.phasecheckBufferOffset + UInt32.ofNat bytes.length).toNat : Int) +
        (s.total - bytes.length) ≤ PRODUCTINFO_SIZE
      rw [UInt32.toNat_add, UInt32.toNat_ofNat']
      rw [PRODUCTINFO_SIZE] at hle ⊢
      omega

theorem storeRuntime (h : InBounds s.trace) (hlength : s.length = .runtime) (hroom : Room s)
    {bytes : List UInt8} (hcount : (bytes.length : Int) ≤ s.total) {e : Env}
    (hwrites : e.WritesSucceed) : FitInv (s.storeRuntime bytes e) := by
  obtain ⟨hprimary, hbackup⟩ := hroom.runtime hlength
  have hw1 : (bytes.take e.writeRuntime.toNat).length ≤ bytes.length := List.length_take_le' _ _
  have hw2 : (bytes.take e.writeRuntimeBackup.toNat).length ≤ bytes.length :=
    List.length_take_le' _ _
  rw [State.storeRuntime_of_nonneg hwrites.1 hwrites.2]
  refine advance ?_ ?_ e
  · refine inBounds_cons.mpr ⟨?_, inBounds_cons.mpr ⟨?_, h⟩⟩
    · change s.runtimeBackupPos + (bytes.take e.writeRuntimeBackup.toNat).length ≤ RUNTIMENV_SIZE
      omega
    · change s.runtimePos + (bytes.take e.writeRuntime.toNat).length ≤ RUNTIMENV_SIZE
      omega
  · intro _
    refine ⟨fun hother => absurd (hlength.symm.trans hother) (by decide), fun _ => ⟨?_, ?_⟩,
      fun hother => absurd (hlength.symm.trans hother) (by decide)⟩
    · change ((s.runtimePos + (bytes.take e.writeRuntime.toNat).length : ℕ) : Int) +
        (s.total - bytes.length) ≤ RUNTIMENV_SIZE
      omega
    · change ((s.runtimeBackupPos + (bytes.take e.writeRuntimeBackup.toNat).length : ℕ) : Int) +
        (s.total - bytes.length) ≤ RUNTIMENV_SIZE
      omega

theorem payloadStep (h : FitInv s) {e : Env}
    (hwrites : s.control = .payload → s.length = .runtime → e.WritesSucceed) :
    FitInv (s.payloadStep e) := by
  rw [State.payloadStep]
  split_ifs with hpayload
  · have hroom := h.room hpayload
    have hpos := h.total_pos hpayload
    rcases s.step_cases e with heq | ⟨-, heq⟩ | ⟨bytes, hheader, -⟩ | ⟨bytes, -, -, -, heq⟩
    · rw [heq]
      exact h
    · rw [heq]
      exact reopenVbpipe h.bounds e
    · exact absurd (hpayload.symm.trans hheader) (by decide)
    · have hcount : ((s.chunk bytes).length : Int) ≤ s.total :=
        s.length_chunk_le (Int.le_of_lt hpos) _
      have hlog : InBounds (s.log (.readPayload (s.chunk bytes))).trace :=
        inBounds_cons.mpr ⟨trivial, h.bounds⟩
      have hroom' : Room (s.log (.readPayload (s.chunk bytes))) :=
        ⟨hroom.fixnv, hroom.runtime, hroom.productinfo⟩
      rw [heq]
      rcases State.store_cases (s.log (.readPayload (s.chunk bytes))) (s.chunk bytes) e with
        ⟨hlength, heq⟩ | ⟨hlength, heq⟩ | ⟨hlength, heq⟩
      · rw [heq]
        exact storeRuntime hlog hlength hroom' hcount (hwrites hpayload hlength)
      · rw [heq]
        exact storeFixnv hlog hlength hroom' hcount e
      · rw [heq]
        exact storePhasecheck hlog hlength hroom' hcount e
  · exact h

theorem step_of_encode (hbounds : InBounds s.trace) (hcontrol : s.control = .header) {e : Env}
    {h : RequestHeader} (hread : e.read = some h.encode) (hfits : HeaderFits h) :
    FitInv (s.step e) := by
  rw [State.step_of_read hcontrol hread (List.cons_ne_nil _ _)]
  apply interpret
  · exact inBounds_cons.mpr ⟨trivial, hbounds⟩
  · exact hcontrol
  · rw [State.header_receive_encode]
    exact hfits

end FitInv

/-! ## Requests without runtime payload -/

theorem length_store (s : State) (bytes : List UInt8) (e : Env) :
    (s.store bytes e).length = s.length := by
  rcases s.store_cases bytes e with ⟨-, heq⟩ | ⟨-, heq⟩ | ⟨-, heq⟩
  · rw [heq]
    rcases s.storeRuntime_cases bytes e with heq | heq | heq
    · rw [heq]
    · rw [heq]
      rfl
    · rw [heq]
      exact State.length_loopTest _ e
  · rw [heq]
    rcases s.storeFixnv_cases bytes e with heq | ⟨buffer, -, heq⟩
    · rw [heq]
      rfl
    · rw [heq]
      exact State.length_loopTest _ e
  · rw [heq]
    rcases s.storePhasecheck_cases bytes e with heq | ⟨buffer, -, heq⟩
    · rw [heq]
      rfl
    · rw [heq]
      exact State.length_loopTest _ e

theorem length_payloadStep (s : State) (e : Env) : (s.payloadStep e).length = s.length := by
  rw [State.payloadStep]
  split_ifs with hpayload
  · rcases s.step_cases e with heq | ⟨-, heq⟩ | ⟨bytes, hheader, -⟩ | ⟨bytes, -, -, -, heq⟩
    · rw [heq]
    · rw [heq]
      rfl
    · exact absurd (hpayload.symm.trans hheader) (by decide)
    · rw [heq]
      exact length_store _ _ e
  · rfl

/-- A payload is only read for the runtime NV when the request has one. -/
theorem length_ne_runtime_of_interpret {s : State} (hcontrol : s.control = .header)
    (hdata : ¬ s.header.IsRuntimeData) (e : Env)
    (hpayload : (s.interpret e).control = .payload) : (s.interpret e).length ≠ .runtime := by
  rcases s.interpret_cases e with
    ⟨-, heq⟩ | ⟨hsync, ⟨-, heq⟩ | ⟨hruntime, heq⟩ | ⟨-, heq⟩ | heq⟩
  · -- a sync command reads no payload
    rw [heq, State.control_sync] at hpayload
    exact absurd (hcontrol.symm.trans hpayload) (by decide)
  · rw [heq] at hpayload ⊢
    rcases State.openFixnv_cases (s.log (.interpret s.header)) e with ⟨buffer, heq⟩ | ⟨_, heq⟩
    · rw [heq] at hpayload
      exact Control.noConfusion hpayload
    · rw [heq, State.length_loopTest]
      exact NvImage.noConfusion
  · have htotal : s.header.total ≤ 0 := by
      by_contra hpos
      exact hdata ⟨hsync, hruntime, Int.not_le.mp hpos⟩
    rw [heq] at hpayload
    rcases State.openRuntime_cases (s.log (.interpret s.header)) e with heq | heq | heq
    · rw [heq] at hpayload
      exact Control.noConfusion hpayload
    · rw [heq] at hpayload
      exact Control.noConfusion hpayload
    · rw [heq, State.loopTest_of_nonpos htotal, State.control_complete] at hpayload
      exact Control.noConfusion hpayload
  · rw [heq] at hpayload ⊢
    rcases State.openProductinfo_cases (s.log (.interpret s.header)) e with
      ⟨buffer, heq⟩ | ⟨_, heq⟩
    · rw [heq] at hpayload
      exact Control.noConfusion hpayload
    · rw [heq, State.length_loopTest]
      exact NvImage.noConfusion
  · rw [heq] at hpayload
    exact absurd (hcontrol.symm.trans hpayload) (by decide)

/-! ## A header that does not fit -/

theorem InBounds.of_suffix {trace trace' : List Action} (h : InBounds trace')
    (hsuffix : trace <:+ trace') : InBounds trace := fun a ha => h a (hsuffix.subset ha)

/-- No turns of the payload loop, with writes that succeed, leave the images. -/
def StaysInBounds (s : State) : Prop :=
  ∀ es : List Env, (∀ e ∈ es, e.WritesSucceed) →
    InBounds (Run.run State.payloadStep s es).trace

theorem StaysInBounds.step {s : State} (h : StaysInBounds s) {e : Env} (he : e.WritesSucceed) :
    StaysInBounds (s.payloadStep e) := fun es hes =>
  h (e :: es) (List.forall_mem_cons.mpr ⟨he, hes⟩)

theorem StaysInBounds.inBounds {s : State} (h : StaysInBounds s) : InBounds s.trace :=
  h [] (List.forall_mem_nil _)

theorem payloadStep_of_byte {s : State} (hpayload : s.control = .payload) (hpos : 0 < s.total)
    {e : Env} {b : UInt8} (hread : e.read = some [b]) :
    s.payloadStep e = (s.log (.readPayload [b])).store [b] e := by
  have htake : s.chunk [b] = [b] := by
    apply List.take_of_length_le
    rw [List.length_singleton, DATA_BUF_LEN]
    omega
  rw [State.payloadStep, if_pos hpayload,
    State.step_of_payload hpayload hread (List.cons_ne_nil _ _), htake]

/-- The payload loop, fed one byte at a time, moves the cursor of its image through
the whole request. -/
theorem cursor_add_total_le {image : NvImage} {cursor : State → ℕ} {limit : ℕ}
    (hbyte : ∀ s : State, s.control = .payload → s.length = image → 0 < s.total →
      InBounds (s.payloadStep (.reads [0])).trace →
        cursor s + 1 ≤ limit ∧
          (1 < s.total → (s.payloadStep (.reads [0])).control = .payload ∧
            (s.payloadStep (.reads [0])).total = s.total - 1 ∧
              cursor (s.payloadStep (.reads [0])) = cursor s + 1)) :
    ∀ (n : ℕ) (s : State), s.control = .payload → s.length = image → s.total = n + 1 →
      StaysInBounds s → cursor s + (n + 1) ≤ limit := by
  have hwrites : (Env.reads [0]).WritesSucceed := ⟨Int.natCast_nonneg _, Int.natCast_nonneg _⟩
  intro n
  induction n with
  | zero =>
      intro s hpayload hlength htotal hstays
      exact (hbyte s hpayload hlength (by omega) (hstays.step hwrites).inBounds).1
  | succ n ih =>
      intro s hpayload hlength htotal hstays
      obtain ⟨-, hnext⟩ :=
        hbyte s hpayload hlength (by omega) (hstays.step hwrites).inBounds
      obtain ⟨hpayload', htotal', hcursor'⟩ := hnext (by omega)
      have hrest := ih _ hpayload' ((length_payloadStep s _).trans hlength) (by omega)
        (hstays.step hwrites)
      omega

theorem fixnv_byte (s : State) (hpayload : s.control = .payload) (hlength : s.length = .fixnv)
    (hpos : 0 < s.total) (hin : InBounds (s.payloadStep (.reads [0])).trace) :
    s.fixnvBufferOffset.toNat + 1 ≤ FIXNV_SIZE ∧
      (1 < s.total → (s.payloadStep (.reads [0])).control = .payload ∧
        (s.payloadStep (.reads [0])).total = s.total - 1 ∧
          (s.payloadStep (.reads [0])).fixnvBufferOffset.toNat =
            s.fixnvBufferOffset.toNat + 1) := by
  have hstep : s.payloadStep (.reads [0]) =
      (s.log (.readPayload [0])).storeFixnv [0] (.reads [0]) := by
    rw [payloadStep_of_byte hpayload hpos rfl, State.store, State.length_log, hlength]
  rw [hstep] at hin ⊢
  have haccess : s.fixnvBufferOffset.toNat + 1 ≤ FIXNV_SIZE :=
    (inBounds_cons.mp (hin.of_suffix (State.trace_suffix_storeFixnv _ _ _))).1
  refine ⟨haccess, fun hmore => ?_⟩
  have hfits : (s.log (.readPayload [0])).fixnvBufferOffset.toNat + [(0 : UInt8)].length ≤
      FIXNV_SIZE + 4 := Nat.le_trans haccess (Nat.le_add_right _ _)
  rw [State.storeFixnv_of_lt hfits hmore]
  refine ⟨rfl, rfl, ?_⟩
  change (s.fixnvBufferOffset + 1).toNat = s.fixnvBufferOffset.toNat + 1
  rw [UInt32.toNat_add]
  rw [FIXNV_SIZE] at haccess
  exact Nat.mod_eq_of_lt (Nat.lt_of_le_of_lt haccess (by decide))

theorem productinfo_byte (s : State) (hpayload : s.control = .payload)
    (hlength : s.length = .productinfo) (hpos : 0 < s.total)
    (hin : InBounds (s.payloadStep (.reads [0])).trace) :
    s.phasecheckBufferOffset.toNat + 1 ≤ PRODUCTINFO_SIZE ∧
      (1 < s.total → (s.payloadStep (.reads [0])).control = .payload ∧
        (s.payloadStep (.reads [0])).total = s.total - 1 ∧
          (s.payloadStep (.reads [0])).phasecheckBufferOffset.toNat =
            s.phasecheckBufferOffset.toNat + 1) := by
  have hstep : s.payloadStep (.reads [0]) =
      (s.log (.readPayload [0])).storePhasecheck [0] (.reads [0]) := by
    rw [payloadStep_of_byte hpayload hpos rfl, State.store, State.length_log, hlength]
  rw [hstep] at hin ⊢
  have haccess : s.phasecheckBufferOffset.toNat + 1 ≤ PRODUCTINFO_SIZE :=
    (inBounds_cons.mp (hin.of_suffix (State.trace_suffix_storePhasecheck _ _ _))).1
  refine ⟨haccess, fun hmore => ?_⟩
  have hfits : (s.log (.readPayload [0])).phasecheckBufferOffset.toNat + [(0 : UInt8)].length ≤
      PRODUCTINFO_SIZE + 8 := Nat.le_trans haccess (Nat.le_add_right _ _)
  rw [State.storePhasecheck_of_lt hfits hmore]
  refine ⟨rfl, rfl, ?_⟩
  change (s.phasecheckBufferOffset + 1).toNat = s.phasecheckBufferOffset.toNat + 1
  rw [UInt32.toNat_add]
  rw [PRODUCTINFO_SIZE] at haccess
  exact Nat.mod_eq_of_lt (Nat.lt_of_le_of_lt haccess (by decide))

theorem runtime_byte (s : State) (hpayload : s.control = .payload) (hlength : s.length = .runtime)
    (hpos : 0 < s.total) (hin : InBounds (s.payloadStep (.reads [0])).trace) :
    s.runtimePos + 1 ≤ RUNTIMENV_SIZE ∧
      (1 < s.total → (s.payloadStep (.reads [0])).control = .payload ∧
        (s.payloadStep (.reads [0])).total = s.total - 1 ∧
          (s.payloadStep (.reads [0])).runtimePos = s.runtimePos + 1) := by
  have hstep : s.payloadStep (.reads [0]) = (((s.log (.readPayload [0])).writeRuntime [0]
      1).writeRuntimeBackup [0] 1).advance 1 (.reads [0]) := by
    rw [payloadStep_of_byte hpayload hpos rfl, State.store, State.length_log, hlength]
    rfl
  rw [hstep] at hin ⊢
  have haccess : s.runtimePos + 1 ≤ RUNTIMENV_SIZE := by
    have hwrites := hin.of_suffix (State.trace_suffix_advance _ _ _)
    exact (inBounds_cons.mp (inBounds_cons.mp hwrites).2).1
  refine ⟨haccess, fun hmore => ?_⟩
  rw [State.advance_of_lt]
  · exact ⟨rfl, rfl, rfl⟩
  · exact hmore

/-- A turn in which the backup file refuses what the primary file has accepted. -/
def Env.backupFails : Env := { Env.reads [0] with writeRuntimeBackup := -1 }

/-- Nothing is subtracted when the backup file refuses a byte, so the primary file
runs on without end. -/
theorem runtimePos_add_le :
    ∀ (n : ℕ) (s : State), s.control = .payload → s.length = .runtime → 0 < s.total →
      (∀ es, InBounds (Run.run State.payloadStep s es).trace) →
        n = 0 ∨ s.runtimePos + n ≤ RUNTIMENV_SIZE := by
  intro n
  induction n with
  | zero =>
      intro s _ _ _ _
      exact Or.inl rfl
  | succ n ih =>
      intro s hpayload hlength hpos hall
      have hstep : s.payloadStep .backupFails =
          (s.log (.readPayload [0])).writeRuntime [0] 1 := by
        rw [payloadStep_of_byte hpayload hpos rfl, State.store, State.length_log, hlength]
        rfl
      have hin := hall [.backupFails]
      rw [Run.run_cons, Run.run_nil, hstep] at hin
      have haccess : s.runtimePos + 1 ≤ RUNTIMENV_SIZE := (inBounds_cons.mp hin).1
      have hnext := ih ((s.log (.readPayload [0])).writeRuntime [0] 1) hpayload hlength hpos
        (fun es => by rw [← hstep]; exact hall (.backupFails :: es))
      have hpos' : ((s.log (.readPayload [0])).writeRuntime [0] 1).runtimePos =
          s.runtimePos + 1 := rfl
      omega

/-! ## The headers of safe requests -/

theorem rangeFits_of_total {h : RequestHeader} {limit : ℕ}
    (hpos : 0 < h.total → h.offset.toNat + h.size.toNat ≤ limit) : h.RangeFits limit := by
  by_cases ht : 0 < h.total
  · exact Or.inr (hpos ht)
  · exact Or.inl (Int.not_lt.mp ht)

theorem exists_eq_succ_of_pos {total : Int} (hpos : 0 < total) : ∃ n : ℕ, total = n + 1 :=
  ⟨total.toNat - 1, by omega⟩

theorem headerFits_of_staysInBounds {s : State}
    (hstays : StaysInBounds (s.interpret (.reads s.header.encode))) : HeaderFits s.header := by
  refine ⟨fun hsync htype => rangeFits_of_total fun hpos => ?_,
    fun hsync htype => ⟨?_, rangeFits_of_total fun hpos => ?_⟩,
    fun hsync htype => rangeFits_of_total fun hpos => ?_⟩
  · obtain ⟨n, hn⟩ := exists_eq_succ_of_pos hpos
    have hsize := s.header.total_eq_size hpos
    rw [State.interpret_of_fixnv hsync htype] at hstays
    obtain ⟨hpayload, hlength, htotal, hoffset⟩ :=
      State.openFixnv_payload (s := s.log (.interpret s.header))
        (e := .reads s.header.encode) rfl hpos
    have hle := cursor_add_total_le fixnv_byte n _ hpayload hlength (htotal.trans hn) hstays
    rw [hoffset, State.header_log] at hle
    omega
  · -- the two seeks are made before anything is read
    rw [State.interpret_of_runtime hsync htype] at hstays
    exact (inBounds_cons.mp (hstays.inBounds.of_suffix (State.trace_suffix_openRuntime rfl))).1
  · obtain ⟨n, hn⟩ := exists_eq_succ_of_pos hpos
    have hsize := s.header.total_eq_size hpos
    rw [State.interpret_of_runtime hsync htype] at hstays
    have hseek : s.header.offset.toNat < RUNTIMENV_SIZE :=
      (inBounds_cons.mp (hstays.inBounds.of_suffix (State.trace_suffix_openRuntime rfl))).1
    obtain ⟨hpayload, hlength, htotal, hpos'⟩ :=
      State.openRuntime_payload (s := s.log (.interpret s.header))
        (e := .reads s.header.encode) rfl rfl hpos
    have hle := cursor_add_total_le runtime_byte n _ hpayload hlength (htotal.trans hn) hstays
    rw [hpos', State.header_log, State.lseek, if_pos (by rw [RUNTIMENV_SIZE] at hseek; omega)]
      at hle
    omega
  · obtain ⟨n, hn⟩ := exists_eq_succ_of_pos hpos
    have hsize := s.header.total_eq_size hpos
    rw [State.interpret_of_productinfo hsync htype] at hstays
    obtain ⟨hpayload, hlength, htotal, hoffset⟩ :=
      State.openProductinfo_payload (s := s.log (.interpret s.header))
        (e := .reads s.header.encode) rfl hpos
    have hle := cursor_add_total_le productinfo_byte n _ hpayload hlength (htotal.trans hn)
      hstays
    rw [hoffset, State.header_log] at hle
    omega

/-- A request with a payload for the runtime NV leaves the images when the backup file
keeps failing. -/
theorem not_isRuntimeData_of_inBounds {s : State}
    (hall : ∀ es, InBounds (Run.run State.payloadStep
      (s.interpret (.reads s.header.encode)) es).trace) : ¬ s.header.IsRuntimeData := by
  rintro ⟨hsync, htype, hpos⟩
  rw [State.interpret_of_runtime hsync htype] at hall
  obtain ⟨hpayload, hlength, htotal, -⟩ :=
    State.openRuntime_payload (s := s.log (.interpret s.header))
      (e := .reads s.header.encode) rfl rfl hpos
  have hle := runtimePos_add_le (RUNTIMENV_SIZE + 1) _ hpayload hlength
    (by rw [htotal]; exact hpos) hall
  omega

/-! ## Bounds of a request -/

theorem length_ne_runtime_payloadStep {s : State} (e : Env)
    (h : s.control = .payload → s.length ≠ .runtime)
    (hpayload : (s.payloadStep e).control = .payload) :
    (s.payloadStep e).length ≠ .runtime := by
  by_cases hs : s.control = .payload
  · rw [length_payloadStep]
    exact h hs
  · rw [State.payloadStep, if_neg hs] at hpayload
    exact absurd hpayload hs

theorem FitInv.run {s : State} (h : FitInv s) {es : List Env}
    (hes : ∀ e ∈ es, e.WritesSucceed) : FitInv (Run.run State.payloadStep s es) :=
  Run.invariant_run (fun _ _ he hs => hs.payloadStep fun _ _ => he)
    (Run.meets_of_forall_mem hes s) h

theorem FitInv.run_of_length_ne {s : State} (h : FitInv s)
    (hne : s.control = .payload → s.length ≠ .runtime) :
    ∀ es : List Env, FitInv (Run.run State.payloadStep s es) := by
  intro es
  induction es generalizing s with
  | nil => exact h
  | cons e es ih =>
      have hstep : FitInv (s.payloadStep e) :=
        h.payloadStep fun hpayload hlength => absurd hlength (hne hpayload)
      exact ih hstep (length_ne_runtime_payloadStep e hne)

/-- The header of a request decides whether its accesses stay inside the images: for
every split of the payload, as long as no `write` to the runtime files fails, and, for a
request without runtime payload, whatever the calls return. -/
theorem inBounds_iff (s : State) (h : RequestHeader) (hcontrol : s.control = .header)
    (hbounds : InBounds s.trace) :
    ((∀ (e : Env) (es : List Env), e.read = some h.encode → (∀ e' ∈ es, e'.WritesSucceed) →
        InBounds (s.request e es).trace) ↔ HeaderFits h) ∧
    ((∀ (e : Env) (es : List Env), e.read = some h.encode →
        InBounds (s.request e es).trace) ↔ HeaderFits h ∧ ¬ h.IsRuntimeData) := by
  have hheader := s.header_receive_encode h
  have hstep := State.step_of_read (e := .reads h.encode) hcontrol rfl (List.cons_ne_nil _ _)
  have hreads : ∀ es, s.request (.reads h.encode) es = Run.run State.payloadStep
      ((s.receive h.encode).interpret (.reads (s.receive h.encode).header.encode)) es := by
    intro es
    rw [State.request, hstep, hheader]
  constructor
  · constructor
    · intro hall
      rw [← hheader]
      apply headerFits_of_staysInBounds
      intro es hes
      rw [← hreads]
      exact hall _ es rfl hes
    · intro hfits e es hread hes
      exact ((FitInv.step_of_encode hbounds hcontrol hread hfits).run hes).bounds
  · constructor
    · intro hall
      refine ⟨?_, ?_⟩
      · rw [← hheader]
        apply headerFits_of_staysInBounds
        intro es hes
        rw [← hreads]
        exact hall _ es rfl
      · rw [← hheader]
        apply not_isRuntimeData_of_inBounds
        intro es
        rw [← hreads]
        exact hall _ es rfl
    · rintro ⟨hfits, hdata⟩ e es hread
      refine ((FitInv.step_of_encode hbounds hcontrol hread hfits).run_of_length_ne ?_ es).bounds
      rw [State.step_of_read hcontrol hread (List.cons_ne_nil _ _)]
      refine length_ne_runtime_of_interpret ?_ ?_ e
      · exact hcontrol
      · rw [hheader]
        exact hdata

/-- The bounds of a request for one byte at the start of the fixed NV. -/
theorem inBounds_first_byte :
    ((∀ (e : Env) (es : List Env), e.read = some (RequestHeader.encode ⟨0, 0, 0, 1⟩) →
        (∀ e' ∈ es, e'.WritesSucceed) →
          InBounds ((State.init .empty).request e es).trace) ↔ HeaderFits ⟨0, 0, 0, 1⟩) ∧
    ((∀ (e : Env) (es : List Env), e.read = some (RequestHeader.encode ⟨0, 0, 0, 1⟩) →
        InBounds ((State.init .empty).request e es).trace) ↔
          HeaderFits ⟨0, 0, 0, 1⟩ ∧ ¬ RequestHeader.IsRuntimeData ⟨0, 0, 0, 1⟩) :=
  inBounds_iff (State.init .empty) ⟨0, 0, 0, 1⟩ rfl (List.forall_mem_nil _)

/-- A byte for the offset `FIXNV_SIZE` is copied behind the image. -/
theorem not_inBounds_past_end :
    ¬ ∀ (s : State) (h : RequestHeader) (e : Env) (es : List Env), s.control = .header →
      InBounds s.trace → e.read = some h.encode → (∀ e' ∈ es, e'.WritesSucceed) →
        InBounds (s.request e es).trace := by
  intro hall
  have hin := hall (State.init .empty) ⟨0, 0, 65536, 1⟩
    (.reads (RequestHeader.encode ⟨0, 0, 65536, 1⟩)) [.reads [1]] rfl (List.forall_mem_nil _) rfl
    (List.forall_mem_singleton.mpr ⟨Int.natCast_nonneg _, Int.natCast_nonneg _⟩)
  have haccess : Action.memcpyFixnv 65536 1 ∈
      ((State.init .empty).request (.reads (RequestHeader.encode ⟨0, 0, 65536, 1⟩))
        [.reads [1]]).trace := List.mem_cons_of_mem _ (List.mem_cons_self ..)
  have hle : (65536 : UInt32).toNat + 1 ≤ FIXNV_SIZE := hin _ haccess
  exact absurd hle (by decide)

end NvmDaemon

end Tarako
