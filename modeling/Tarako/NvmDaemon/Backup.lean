import Tarako.NvmDaemon.NvItem

/-!
# The backup of the fixed NV

A sync command copies `fixnv_buffer` to the backup file when
`update_finxn_flag` is set, and nothing clears the flag when a later request
stops half way: the buffer then holds a part of that request and no checksum
for it, or the file that it could not be loaded from is not in it at all. `backups_match`
gives the runs in which every backup image is the image
that was last written to the primary file.
-/

namespace Tarako

namespace NvmDaemon

open Splice

/-- The image that `update_fixnvfile` has most recently written. -/
def lastPrimary : List Action → Option (List UInt8)
  | [] => none
  | .updateFixnv written :: trace => if written = [] then lastPrimary trace else some written
  | _ :: trace => lastPrimary trace

/-- Every image written to the backup file was at that time the image most recently
written to the primary file. -/
def BackupsMatch : List Action → Prop
  | [] => True
  | .updateBackup written :: trace =>
      (written = [] ∨ lastPrimary trace = some written) ∧ BackupsMatch trace
  | _ :: trace => BackupsMatch trace

/-- Payload has been copied into `fixnv_buffer` since the buffer was last loaded or
written to the primary file, or it was not loaded whole. -/
def overlaid : List Action → Bool
  | [] => false
  | .memcpyFixnv _ _ :: _ => true
  | .loadFixnv count :: _ => count < FIXNV_SIZE + 4
  | .updateFixnv _ :: _ => false
  | _ :: trace => overlaid trace

/-- The last call of `update_fixnvfile` has written its whole image. -/
def updateComplete : List Action → Bool
  | [] => false
  | .updateFixnv written :: _ => written.length = FIXNV_SIZE + 4
  | _ :: trace => updateComplete trace

/-- The condition on a step: when it is a sync command that makes a backup, no payload
lies in the buffer, which was loaded whole, the primary file has been written in full, and
so is the backup file, if it is written at all. -/
def SafeSync (s : State) (e : Env) : Prop :=
  s.control = .header → s.updateFinxnFlag = true →
    ∀ b bytes, e.read = some (b :: bytes) →
      (RequestHeader.decode (s.reqHeader.load (b :: bytes))).reqType = 1 →
        overlaid s.trace = false ∧ updateComplete s.trace = true ∧
          ∀ ret, e.backupfixnv = some ret → ret ≤ 0 ∨ (FIXNV_SIZE + 4 : ℕ) ≤ ret

/-- What a complete update leaves behind, until the next one. -/
structure BackupInv (s : State) : Prop where
  backups : BackupsMatch s.trace
  image : s.control ≠ .exited → updateComplete s.trace = true →
    ∃ img, lastPrimary s.trace = some img ∧ img.length = FIXNV_SIZE + 4 ∧ img <+: s.fixnv ∧
      (overlaid s.trace = false → s.fixnvBuffer.bytes = img)

namespace BackupInv

variable {s : State}

theorem exit (h : BackupInv s) : BackupInv s.exit :=
  ⟨h.backups, fun hrun => absurd rfl hrun⟩

theorem updateFixnvfile (h : BackupInv s) (ret : Option Int) :
    BackupInv (s.updateFixnvfile ret) := by
  refine ⟨h.backups, fun _ hcomplete => ?_⟩
  have hlen : (State.writtenBy (State.stampFixnv s.fixnvBuffer s.indexvalue).bytes
      ret).length = FIXNV_SIZE + 4 := of_decide_eq_true hcomplete
  have hne : State.writtenBy (State.stampFixnv s.fixnvBuffer s.indexvalue).bytes ret ≠ [] := by
    intro hnil
    rw [hnil] at hlen
    simp [FIXNV_SIZE] at hlen
  have hwhole : State.writtenBy (State.stampFixnv s.fixnvBuffer s.indexvalue).bytes ret =
      (State.stampFixnv s.fixnvBuffer s.indexvalue).bytes := by
    cases ret with
    | none => exact absurd rfl hne
    | some ret =>
        rw [State.writtenBy, List.length_take, Buffer.size_eq] at hlen
        rw [State.writtenBy, List.take_of_length_le]
        rw [Buffer.size_eq]
        omega
  exact ⟨_, if_neg hne, hlen, prefix_writeAt_zero 0 s.fixnv _, fun _ => hwhole.symm⟩

theorem complete (h : BackupInv s) (hrun : s.control ≠ .exited) (e : Env) :
    BackupInv (s.complete e) := by
  rcases s.complete_cases e with ⟨-, heq⟩ | ⟨-, heq⟩ | ⟨-, heq⟩
  · rw [heq]
    exact ⟨h.backups, fun _ => h.image hrun⟩
  · have hflag : BackupInv { s with control := .header, updateFinxnFlag := true } :=
      ⟨h.backups, fun _ => h.image hrun⟩
    rw [heq]
    exact hflag.updateFixnvfile e.fixnv
  · rw [heq]
    exact ⟨h.backups, fun _ => h.image hrun⟩

theorem loopTest (h : BackupInv s) (hrun : s.control ≠ .exited) (e : Env) :
    BackupInv (s.loopTest e) := by
  rcases s.loopTest_cases e with ⟨-, heq⟩ | ⟨-, heq⟩
  · rw [heq]
    exact ⟨h.backups, fun _ => h.image hrun⟩
  · rw [heq]
    exact h.complete hrun e

/-- A complete image in the file is what a whole load puts into the buffer. -/
theorem openFixnv (h : BackupInv s) (hrun : s.control ≠ .exited) (e : Env) :
    BackupInv (s.openFixnv e) := by
  rcases s.openFixnv_cases e with ⟨buffer, heq⟩ | ⟨indexvalue, heq⟩
  · rw [heq]
    exact ⟨h.backups, fun hrun => absurd rfl hrun⟩
  · rw [heq]
    refine BackupInv.loopTest ?_ ?_ e
    · refine ⟨h.backups, fun _ hcomplete => ?_⟩
      obtain ⟨img, hlast, hlen, hprefix, -⟩ := h.image hrun hcomplete
      refine ⟨img, hlast, hlen, hprefix, fun hclean => ?_⟩
      have hload : FIXNV_SIZE + 4 ≤
          (State.readBy (FIXNV_SIZE + 4) s.fixnv e.readBase).length :=
        Nat.not_lt.mp (of_decide_eq_false hclean)
      obtain ⟨rest, hrest⟩ := hprefix
      have hfirst : s.fixnv.take (FIXNV_SIZE + 4) = img := by rw [← hrest, ← hlen, List.take_left]
      change (Buffer.load _ (State.readBy (FIXNV_SIZE + 4) s.fixnv e.readBase)).bytes = img
      rw [Buffer.load_bytes_of_length hload]
      rw [State.readBy, hfirst, List.length_take] at hload
      rw [State.readBy, hfirst, List.take_take, List.take_of_length_le]
      omega
    · exact hrun

theorem openRuntime (h : BackupInv s) (hrun : s.control ≠ .exited) (e : Env) :
    BackupInv (s.openRuntime e) := by
  rcases s.openRuntime_cases e with heq | heq | heq
  · rw [heq]
    exact h.exit
  · rw [heq]
    exact ⟨h.backups, fun hrun => absurd rfl hrun⟩
  · rw [heq]
    refine BackupInv.loopTest ?_ ?_ e
    · exact ⟨h.backups, h.image⟩
    · exact hrun

theorem openProductinfo (h : BackupInv s) (hrun : s.control ≠ .exited) (e : Env) :
    BackupInv (s.openProductinfo e) := by
  rcases s.openProductinfo_cases e with ⟨buffer, heq⟩ | ⟨indexvalue, heq⟩
  · rw [heq]
    exact ⟨h.backups, fun hrun => absurd rfl hrun⟩
  · rw [heq]
    refine BackupInv.loopTest ?_ ?_ e
    · exact ⟨h.backups, h.image⟩
    · exact hrun

theorem sync (h : BackupInv s) (hrun : s.control ≠ .exited) (e : Env)
    (hsafe : s.updateFinxnFlag = true → overlaid s.trace = false ∧
      updateComplete s.trace = true ∧
        ∀ ret, e.backupfixnv = some ret → ret ≤ 0 ∨ (FIXNV_SIZE + 4 : ℕ) ≤ ret) :
    BackupInv (s.sync e) := by
  rw [State.sync]
  by_cases hflag : s.updateFinxnFlag = true
  · obtain ⟨hclean, hcomplete, hret⟩ := hsafe hflag
    obtain ⟨img, hlast, hlen, -, hbuf⟩ := h.image hrun hcomplete
    rw [if_pos hflag]
    refine ⟨⟨?_, h.backups⟩, h.image⟩
    cases hbackup : e.backupfixnv with
    | none => exact Or.inl rfl
    | some ret =>
        rcases hret ret hbackup with hfail | hwhole
        · left
          rw [State.writtenBy, Int.toNat_of_nonpos hfail, List.take_zero]
        · right
          rw [hlast, State.writtenBy, List.take_of_length_le, hbuf hclean]
          rw [Buffer.size_eq]
          omega
  · rw [if_neg hflag]
    exact ⟨h.backups, h.image⟩

theorem interpret (h : BackupInv s) (hrun : s.control ≠ .exited) (e : Env)
    (hsafe : s.header.reqType = 1 → s.updateFinxnFlag = true → overlaid s.trace = false ∧
      updateComplete s.trace = true ∧
        ∀ ret, e.backupfixnv = some ret → ret ≤ 0 ∨ (FIXNV_SIZE + 4 : ℕ) ≤ ret) :
    BackupInv (s.interpret e) := by
  have hlog : BackupInv (s.log (.interpret s.header)) := ⟨h.backups, h.image⟩
  rcases s.interpret_cases e with
    ⟨hsync, heq⟩ | ⟨-, ⟨-, heq⟩ | ⟨-, heq⟩ | ⟨-, heq⟩ | heq⟩
  · rw [heq]
    exact hlog.sync hrun e (hsafe hsync)
  · rw [heq]
    exact hlog.openFixnv hrun e
  · rw [heq]
    exact hlog.openRuntime hrun e
  · rw [heq]
    exact hlog.openProductinfo hrun e
  · rw [heq]
    exact hlog

theorem advance (h : BackupInv s) (hrun : s.control ≠ .exited) (count : ℕ) (e : Env) :
    BackupInv (s.advance count e) := by
  rw [State.advance]
  refine BackupInv.loopTest ?_ ?_ e
  · exact ⟨h.backups, h.image⟩
  · exact hrun

theorem storeFixnv (h : BackupInv s) (hrun : s.control ≠ .exited) (bytes : List UInt8)
    (e : Env) : BackupInv (s.storeFixnv bytes e) := by
  have himage : updateComplete s.trace = true →
      ∃ img, lastPrimary s.trace = some img ∧ img.length = FIXNV_SIZE + 4 ∧ img <+: s.fixnv ∧
        ∀ buf : List UInt8, true = false → buf = img := by
    intro hcomplete
    obtain ⟨img, hlast, hlen, hprefix, -⟩ := h.image hrun hcomplete
    exact ⟨img, hlast, hlen, hprefix, fun _ hclean => Bool.noConfusion hclean⟩
  rcases s.storeFixnv_cases bytes e with heq | ⟨buffer, -, heq⟩
  · rw [heq]
    refine ⟨h.backups, fun _ hcomplete => ?_⟩
    obtain ⟨img, hlast, hlen, hprefix, hbuf⟩ := himage hcomplete
    exact ⟨img, hlast, hlen, hprefix, hbuf _⟩
  · rw [heq]
    refine BackupInv.advance ?_ ?_ bytes.length e
    · refine ⟨h.backups, fun _ hcomplete => ?_⟩
      obtain ⟨img, hlast, hlen, hprefix, hbuf⟩ := himage hcomplete
      exact ⟨img, hlast, hlen, hprefix, hbuf _⟩
    · exact hrun

theorem storePhasecheck (h : BackupInv s) (hrun : s.control ≠ .exited) (bytes : List UInt8)
    (e : Env) : BackupInv (s.storePhasecheck bytes e) := by
  rcases s.storePhasecheck_cases bytes e with heq | ⟨buffer, -, heq⟩
  · rw [heq]
    exact ⟨h.backups, fun _ => h.image hrun⟩
  · rw [heq]
    refine BackupInv.advance ?_ ?_ bytes.length e
    · exact ⟨h.backups, h.image⟩
    · exact hrun

theorem storeRuntime (h : BackupInv s) (hrun : s.control ≠ .exited) (bytes : List UInt8)
    (e : Env) : BackupInv (s.storeRuntime bytes e) := by
  rcases s.storeRuntime_cases bytes e with heq | heq | heq
  · rw [heq]
    exact h
  · rw [heq]
    exact ⟨h.backups, h.image⟩
  · rw [heq]
    refine BackupInv.advance ?_ ?_ bytes.length e
    · exact ⟨h.backups, h.image⟩
    · exact hrun

theorem store (h : BackupInv s) (hrun : s.control ≠ .exited) (bytes : List UInt8) (e : Env) :
    BackupInv (s.store bytes e) := by
  rcases s.store_cases bytes e with ⟨-, heq⟩ | ⟨-, heq⟩ | ⟨-, heq⟩
  · rw [heq]
    exact h.storeRuntime hrun bytes e
  · rw [heq]
    exact h.storeFixnv hrun bytes e
  · rw [heq]
    exact h.storePhasecheck hrun bytes e

theorem step (h : BackupInv s) (e : Env) (hsafe : SafeSync s e) : BackupInv (s.step e) := by
  have hrun : s.control = .header ∨ s.control = .payload → s.control ≠ .exited := by
    rintro (hheader | hpayload)
    · rw [hheader]
      exact Control.noConfusion
    · rw [hpayload]
      exact Control.noConfusion
  rcases s.step_cases e with heq | ⟨hcontrol, heq⟩ | ⟨bytes, hheader, hread, hne, heq⟩ |
    ⟨bytes, hpayload, -, -, heq⟩
  · rw [heq]
    exact h
  · rw [heq]
    exact ⟨h.backups, fun _ => h.image (hrun hcontrol)⟩
  · rw [heq]
    refine BackupInv.interpret ?_ ?_ e ?_
    · exact ⟨h.backups, h.image⟩
    · exact hrun (Or.inl hheader)
    · intro hsync hflag
      obtain ⟨b, tail, rfl⟩ := List.exists_cons_of_ne_nil hne
      exact hsafe hheader hflag b tail hread hsync
  · rw [heq]
    refine BackupInv.store ?_ ?_ _ e
    · exact ⟨h.backups, h.image⟩
    · exact hrun (Or.inr hpayload)

theorem init (b : State.Boot) : BackupInv (State.init b) :=
  ⟨trivial, fun _ hcomplete => Bool.noConfusion hcomplete⟩

end BackupInv

/-- In every run whose sync commands are safe, at every point of the run, each backup
image is the image last written to the primary file. -/
theorem backups_match (b : State.Boot) (es fs : List Env) (hfs : fs <+: es)
    (hsafe : Run.Meets State.step SafeSync (State.init b) es) :
    BackupsMatch (Run.run State.step (State.init b) fs).trace :=
  (Run.invariant_prefix (fun _ e hs h => BackupInv.step h e hs) hfs hsafe
    (BackupInv.init b)).backups

theorem updateComplete_updateFixnv (buffer : Buffer UInt8 (FIXNV_SIZE + 4)) {ret : Int}
    (hret : (FIXNV_SIZE + 4 : ℕ) ≤ ret) (trace : List Action) :
    updateComplete (.updateFixnv (State.writtenBy buffer.bytes (some ret)) :: trace) = true := by
  have hlen : (State.writtenBy buffer.bytes (some ret)).length = FIXNV_SIZE + 4 := by
    rw [State.writtenBy, List.length_take, buffer.size_eq]
    omega
  exact decide_eq_true hlen

theorem backups_match_sync :
    BackupsMatch (Run.run State.step (State.init .empty)
      [.reads (RequestHeader.encode ⟨0, 0, 0, 1⟩), .reads [1],
        .reads (RequestHeader.encode ⟨0, 1, 0, 0⟩)]).trace := by
  refine backups_match .empty _ _ List.prefix_rfl ⟨?_, ?_, ?_, trivial⟩
  · intro _ hflag
    exact Bool.noConfusion hflag
  · intro hheader
    exact absurd hheader (by decide)
  · intro _ _ _ _ _ _
    refine ⟨rfl, updateComplete_updateFixnv _ (Int.le_refl _) _, fun ret hret => Or.inr ?_⟩
    exact Int.le_of_eq (Option.some.inj hret)

/-- A request that has overlaid one byte is broken off by a reset: the sync command
after it copies the overlaid buffer over the backup. -/
theorem not_backups_match_reset :
    ¬ ∀ (b : State.Boot) (es : List Env),
      BackupsMatch (Run.run State.step (State.init b) es).trace := by
  intro h
  have hrun := h .empty
    [.reads (RequestHeader.encode ⟨0, 0, 0, 1⟩), .reads [1],
      .reads (RequestHeader.encode ⟨0, 0, 0, 2⟩), .reads [2], .reads [],
      .reads (RequestHeader.encode ⟨0, 1, 0, 0⟩)]
  rcases hrun.1 with hnil | hlast
  · exact absurd (congrArg (·[0]?) hnil) (by decide)
  · -- the first byte of the primary image is 1, that of the backup is 2
    exact absurd (congrArg (Option.bind · (·[0]?)) hlast) (by decide)

end NvmDaemon

end Tarako
