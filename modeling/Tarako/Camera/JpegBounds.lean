import Mathlib.Data.List.Perm.Subperm
import Tarako.Camera.JpegParse

/-!
# Bounds of the header parser

Each segment handler checks a part of what it reads: `GetSOF` the component ids but not
their number, `GetSOS` the length but not the number of components nor the ids of the
tables. `SofSafe` and `SosSafe` are what the two leave to the stream.
-/

namespace Tarako

namespace JpegParse

open Prog

/-! ## Reads and accesses -/

def State.next (s : State) : State := s.setStream s.stream.next

theorem bytes_of_refill {s : Stream} {c : UInt8} {chunk : List UInt8}
    (h : s.refill.chunk = c :: chunk) : s.bytes = c :: s.next.bytes := by
  have hnext : s.next.bytes = chunk ++ if s.refill.read then joined s.refill.later else [] := by
    rw [Stream.bytes, Stream.next, h]
    rfl
  rw [hnext]
  obtain ⟨buffer, read, later⟩ := s
  cases buffer with
  | cons b rest =>
      have hrefill : (⟨b :: rest, read, later⟩ : Stream).refill = ⟨b :: rest, read, later⟩ := rfl
      rw [hrefill] at h ⊢
      rw [Stream.bytes, h]
      rfl
  | nil =>
      cases read with
      | false => cases h
      | true =>
          cases later with
          | nil => cases h
          | cons first later =>
              have hfirst : first = c :: chunk := h
              subst hfirst
              rfl

theorem bytes_of_refill_nil {s : Stream} (h : s.refill.chunk = []) : s.bytes = [] := by
  obtain ⟨buffer, read, later⟩ := s
  cases buffer with
  | cons b rest => cases h
  | nil =>
      cases read with
      | false => rfl
      | true =>
          cases later with
          | nil => rfl
          | cons first later =>
              have hfirst : first = [] := h
              subst hfirst
              rfl

theorem bytes_next {s : State} {c : UInt8} {r : List UInt8} (h : s.bytes = c :: r) :
    s.next.bytes = r := by
  cases hchunk : s.stream.refill.chunk with
  | nil =>
      have hnil : s.bytes = [] := bytes_of_refill_nil hchunk
      rw [hnil] at h
      cases h
  | cons b chunk =>
      have hbytes : s.bytes = b :: s.next.bytes := bytes_of_refill hchunk
      rw [hbytes] at h
      exact (List.cons.inj h).2

/-- The parser returns, or an assertion ends it. -/
def NoFault (e : Stop) : Prop := e ≠ .fault

instance : DecidablePred NoFault := fun e => inferInstanceAs (Decidable (e ≠ .fault))

@[simp] theorem noFault_failed : NoFault .failed := nofun

@[simp] theorem noFault_aborted : NoFault .aborted := nofun

@[simp] theorem not_noFault_fault : ¬ NoFault .fault := fun h => h rfl

section Accesses

variable {E : Stop → Prop} {s : State}

@[simp] theorem wp_getChar {Q : UInt8 → State → Prop} : wp E getChar Q s ↔
    (s.bytes = [] → E .failed) ∧ ∀ c, s.bytes = c :: s.next.bytes → Q c s.next := by
  rw [getChar, wp_bind, wp_get]
  cases hchunk : s.stream.refill.chunk with
  | nil =>
      have hnil : s.bytes = [] := bytes_of_refill_nil hchunk
      simp [hnil]
  | cons b chunk =>
      have hbytes : s.bytes = b :: s.next.bytes := bytes_of_refill hchunk
      rw [wp_bind, wp_modify, wp_pure]
      constructor
      · intro h
        refine ⟨fun hnil => ?_, fun c hc => ?_⟩
        · rw [hbytes] at hnil
          cases hnil
        · rw [hbytes] at hc
          rw [← (List.cons.inj hc).1]
          exact h
      · exact fun h => h.2 b hbytes

@[simp] theorem wp_getShortWord {Q : ℕ → State → Prop} : wp E getShortWord Q s ↔
    (s.bytes.length < 2 → E .failed) ∧
      ∀ hi lo, s.bytes = hi :: lo :: s.next.next.bytes → Q (word hi lo) s.next.next := by
  simp only [getShortWord, wp_bind, wp_getChar, wp_pure]
  constructor
  · rintro ⟨hnil, h⟩
    refine ⟨fun hlen => ?_, fun hi lo hbytes => ?_⟩
    · cases hbytes : s.bytes with
      | nil => exact hnil hbytes
      | cons hi r =>
          have hnext := bytes_next hbytes
          refine (h hi (by rw [hnext, hbytes])).1 ?_
          rw [hbytes, List.length_cons] at hlen
          exact List.length_eq_zero_iff.mp (by rw [hnext]; omega)
    · have hnext := bytes_next hbytes
      exact (h hi (by rw [hnext, hbytes])).2 lo hnext
  · rintro ⟨hshort, h⟩
    refine ⟨fun hnil => hshort (by simp [hnil]), fun hi hbytes => ⟨fun hnil => ?_, ?_⟩⟩
    · exact hshort (by simp [hbytes, hnil])
    · exact fun lo hnext => h hi lo (by rw [hbytes, hnext])

@[simp] theorem wp_fetch {α : Type} {l : List α} {i : ℕ} {Q : α → State → Prop} :
    wp E (fetch l i) Q s ↔ (l[i]? = none → E .fault) ∧ ∀ x, l[i]? = some x → Q x s := by
  rw [fetch]
  cases l[i]? with
  | none => simp
  | some x => simp

@[simp] theorem wp_store {α : Type} {n : ℕ} {v : Vector α n} {i : ℕ} {x : α}
    {Q : Vector α n → State → Prop} : wp E (store v i x) Q s ↔
      (n ≤ i → E .fault) ∧ ∀ h : i < n, Q (v.set i x h) s := by
  rw [store]
  split_ifs with h
  · simp [h, Nat.not_le.mpr h]
  · simp [h, Nat.not_lt.mp h]

@[simp] theorem wp_deref {α : Type} {p : Option α} {Q : α → State → Prop} :
    wp E (deref p) Q s ↔ (p = none → E .fault) ∧ ∀ x, p = some x → Q x s := by
  cases p with
  | none => simp [deref]
  | some x => simp [deref]

def State.alloc (s : State) (memSize : ℕ) : State :=
  s.setPool { s.pool with used := s.pool.used + aligned memSize }

@[simp] theorem wp_extraMemAlloc {α : Type} {memSize : ℕ} {x : α}
    {Q : Option α → State → Prop} : wp E (extraMemAlloc memSize x) Q s ↔
      (s.pool.Fits memSize → Q (some x) (s.alloc memSize)) ∧
      (¬ s.pool.Fits memSize →
        if s.pool.asserts then E .aborted else Q none (s.alloc memSize)) := by
  simp only [extraMemAlloc, wp_bind, wp_get, wp_check, wp_modify, wp_pure]
  by_cases h : s.pool.Fits memSize
  · simp [h, State.alloc]
  · simp [h, State.alloc]
    cases s.pool.asserts with
    | false => simp
    | true => simp

/-! ## Components -/

/-- The elements that `comp_info` has. -/
def State.comps (s : State) : List Component := s.codec.compInfo.getD []

def State.setComps (s : State) (comps : List Component) : State :=
  s.setCodec { s.codec with compInfo := some comps }

def State.setEntry (s : State) (i : ℕ) (entry : TblMap) (h : i < 3) : State :=
  s.setCodec { s.codec with tblMap := s.codec.tblMap.set i entry h }

@[simp] theorem wp_fetchComp {ci : ℕ} {Q : Component → State → Prop} :
    wp E (fetchComp ci) Q s ↔
      (s.comps[ci]? = none → E .fault) ∧ ∀ comp, s.comps[ci]? = some comp → Q comp s := by
  rw [fetchComp, wp_bind, wp_get, wp_bind, wp_deref, State.comps]
  cases s.codec.compInfo with
  | none => simp
  | some l => simp

@[simp] theorem wp_updateComp {ci : ℕ} {f : Component → Component} {Q : Unit → State → Prop} :
    wp E (updateComp ci f) Q s ↔ (s.comps[ci]? = none → E .fault) ∧
      ∀ comp, s.comps[ci]? = some comp → Q () (s.setComps (s.comps.set ci (f comp))) := by
  rw [updateComp, wp_bind, wp_get, wp_bind, wp_deref, State.comps]
  cases s.codec.compInfo with
  | none => simp
  | some l => simp [State.setComps]

@[simp] theorem wp_updateTblMap {i : ℕ} {f : TblMap → TblMap} {Q : Unit → State → Prop} :
    wp E (updateTblMap i f) Q s ↔ (3 ≤ i → E .fault) ∧
      ∀ h : i < 3, Q () (s.setEntry i (f s.codec.tblMap[i]) h) := by
  rw [updateTblMap, wp_bind, wp_get, wp_bind, wp_fetch]
  by_cases h : i < 3
  · simp [h, State.setEntry]
  · simp [h, Nat.not_lt.mp h]

end Accesses

/-- What holds of the codec before every segment: as many components as `num_components`
says, and no Huffman table chosen yet. -/
structure Wf (s : State) : Prop where
  comps : s.comps.length = s.codec.numComponents
  ids : ∀ (i : ℕ) (h : i < 3),
    s.codec.tblMap[i].dcHuffTblId = 0 ∧ s.codec.tblMap[i].acHuffTblId = 0

theorem Wf.next {s : State} (h : Wf s) : Wf s.next := ⟨h.comps, h.ids⟩

theorem Wf.setComps {s : State} (h : Wf s) {comps : List Component}
    (hlength : comps.length = s.comps.length) : Wf (s.setComps comps) :=
  ⟨hlength.trans h.comps, h.ids⟩

theorem Wf.setEntry {s : State} (h : Wf s) {i : ℕ} (hi : i < 3) {entry : TblMap}
    (hentry : entry.dcHuffTblId = 0 ∧ entry.acHuffTblId = 0) : Wf (s.setEntry i entry hi) := by
  refine ⟨h.comps, fun j hj => ?_⟩
  have hget : (s.setEntry i entry hi).codec.tblMap[j] =
      if i = j then entry else s.codec.tblMap[j] := Vector.getElem_set hi hj
  rw [hget]
  split_ifs
  · exact hentry
  · exact h.ids j hj

/-! ## SOF -/

theorem wp_sofComponent {n ci : ℕ} (hci : ci < n) {s : State}
    (h : Wf s ∧ s.codec.numComponents = n) :
    wp NoFault (sofComponent ci) (fun _ t => Wf t ∧ t.codec.numComponents = n) s := by
  obtain ⟨hwf, hn⟩ := h
  have hlength : ci < s.comps.length := by rw [hwf.comps, hn]; exact hci
  simp only [sofComponent, wp_bind, wp_getChar, wp_updateComp, wp_check, wp_updateTblMap,
    noFault_failed, not_noFault_fault, imp_false, implies_true, true_and, and_true]
  intro yuvId _
  have hwf₁ : ∀ comp, Wf (s.next.setComps (s.next.comps.set ci comp)) := fun comp =>
    hwf.next.setComps (by simp)
  refine ⟨?_, fun comp _ hid c _ => ⟨?_, fun comp' _ q _ _ => ⟨by omega, fun h3 => ⟨?_, hn⟩⟩⟩⟩
  · rw [List.getElem?_eq_none_iff]
    exact Nat.not_le.mpr hlength
  · rw [List.getElem?_eq_none_iff]
    have heq := (hwf₁ { comp with componentIndex := ci, componentId := yuvId }).next.comps
    rw [heq]
    exact Nat.not_le.mpr (hn ▸ hci)
  · refine Wf.setEntry (Wf.next (Wf.setComps (hwf₁ _).next (by simp))) h3 ?_
    exact hwf.ids _ h3

theorem wp_sofFormat {n : ℕ} (hn : 0 < n) {s : State} (h : Wf s ∧ s.codec.numComponents = n) :
    wp NoFault (sofFormat n) (fun _ t => Wf t) s := by
  obtain ⟨hwf, hnum⟩ := h
  have hlength : s.comps.length = n := hwf.comps.trans hnum
  have hinfo : ∀ input, Wf (s.setInput input) := fun input => ⟨hwf.comps, hwf.ids⟩
  have hthere : ∀ ci, ci < n → s.comps[ci]? ≠ none := by
    intro ci hci hnone
    rw [List.getElem?_eq_none_iff] at hnone
    omega
  simp only [sofFormat, wp_bind, wp_fetchComp, not_noFault_fault, imp_false]
  refine ⟨hthere 0 hn, fun comp _ => ?_⟩
  rw [wp_ite]
  refine ⟨fun _ => hinfo _, fun hone => ?_⟩
  cases mcuInfoOf (sampling comp) with
  | none => exact noFault_failed
  | some info =>
      simp only [wp_bind, wp_modify, wp_fetchComp, wp_check, wp_ite, wp_pure, noFault_failed,
        not_noFault_fault, imp_false, implies_true, and_true]
      refine ⟨hthere 1 (by omega), fun u _ _ => ⟨fun hthree => ?_, fun _ => hinfo _⟩⟩
      exact ⟨hthere 2 hthree, fun v _ _ => hinfo _⟩

/-- The components of a SOF: they are allocated, or the stream ends before the first. -/
theorem wp_sofComponents {n : ℕ} {s : State} (hwf : Wf s)
    (h : s.pool.asserts = true ∨ s.pool.Fits (n * 16) ∨ (n ≠ 0 ∧ s.bytes = [])) :
    wp NoFault (sofComponents n) (fun _ => Wf) s := by
  simp only [sofComponents, wp_bind, wp_extraMemAlloc, wp_modify]
  refine ⟨fun hfits => ?_, fun hfits => ?_⟩
  · have hpos : 0 < n := by
      obtain ⟨hsize, -⟩ := hfits
      rw [aligned] at hsize
      omega
    let t := (s.alloc (n * 16)).setCodec
      { s.codec with numComponents := n, compInfo := some (List.replicate n default) }
    have ht : Wf t ∧ t.codec.numComponents = n := ⟨⟨List.length_replicate, hwf.ids⟩, rfl⟩
    have heach := wp_each (fun ci u hci hu => wp_sofComponent hci hu)
      (Nat.le_of_eq (Nat.zero_add n)) ht
    exact wp_mono heach (fun _ he => he) fun _ u hu => wp_sofFormat hpos hu
  · cases hasserts : s.pool.asserts with
    | true => exact noFault_aborted
    | false =>
        rw [hasserts] at h
        obtain ⟨hn, hbytes⟩ := (h.resolve_left Bool.false_ne_true).resolve_left hfits
        obtain ⟨k, rfl⟩ := Nat.exists_eq_succ_of_ne_zero hn
        -- the first component is not read
        simp only [Bool.false_eq_true, if_false, each, wp_bind, sofComponent, wp_getChar]
        refine ⟨fun _ => noFault_failed, fun c hc => ?_⟩
        change s.bytes = _ at hc
        rw [hbytes] at hc
        cases hc

theorem sofComponents_fault {n : ℕ} {s : State} {Q : Unit → State → Prop}
    (h : wp NoFault (sofComponents n) Q s) :
    s.pool.asserts = true ∨ s.pool.Fits (n * 16) ∨ (n ≠ 0 ∧ s.bytes = []) := by
  simp only [sofComponents, wp_bind, wp_extraMemAlloc, wp_modify] at h
  by_cases hfits : s.pool.Fits (n * 16)
  · exact Or.inr (Or.inl hfits)
  · have hnone := h.2 hfits
    cases hasserts : s.pool.asserts with
    | true => exact Or.inl rfl
    | false =>
        rw [hasserts] at hnone
        simp only [Bool.false_eq_true, if_false] at hnone
        cases n with
        | zero =>
            -- the format is read from a component that does not exist
            simp only [each, wp_pure, sofFormat, wp_bind, wp_fetchComp] at hnone
            exact absurd (hnone.1 rfl) not_noFault_fault
        | succ k =>
            refine Or.inr (Or.inr ⟨Nat.succ_ne_zero k, ?_⟩)
            cases hbytes : s.bytes with
            | nil => rfl
            | cons c r =>
                simp only [each, wp_bind, sofComponent, wp_getChar, wp_updateComp] at hnone
                have hnext : s.next.bytes = r := bytes_next hbytes
                exact absurd ((hnone.2 c (by
                  change s.bytes = c :: s.next.bytes
                  rw [hnext, hbytes])).1 rfl) not_noFault_fault

/-- The condition on a SOF: its components are allocated, or the stream ends before the
first of them. -/
def SofSafe (s : State) : Prop :=
  ∀ lh ll hh hl wh wl n r, s.bytes = lh :: ll :: 8 :: hh :: hl :: wh :: wl :: n :: r →
    word lh ll = n.toNat * 3 + 8 →
      s.pool.asserts = true ∨ s.pool.Fits (n.toNat * 16) ∨ (n.toNat ≠ 0 ∧ r = [])

def State.sofHeader (s : State) (isProgressive : Bool) (height width : ℕ) : State :=
  let t := s.setInput { s.input with progressiveMode := isProgressive }
  let input := { t.input with inputHeight := height, inputWidth := width }
  (t.next.next.next.next.next.next.next.setInput input).next

theorem wp_getSOF (isProgressive : Bool) {s : State} {Q : Unit → State → Prop} :
    wp NoFault (getSOF isProgressive) Q s ↔
      ∀ lh ll hh hl wh wl n r, s.bytes = lh :: ll :: 8 :: hh :: hl :: wh :: wl :: n :: r →
        word lh ll = n.toNat * 3 + 8 → wp NoFault (sofComponents n.toNat) Q
          (s.sofHeader isProgressive (word hh hl) (word wh wl)) := by
  simp only [getSOF, wp_bind, wp_modify, wp_getShortWord, wp_getChar, wp_check, noFault_failed,
    implies_true, true_and, and_true]
  -- the state behind the height
  let s₅ := s.next.next.next.next.next
  constructor
  · intro h lh ll hh hl wh wl n r hbytes hlength
    have h₁ : s.next.bytes = _ := bytes_next hbytes
    have h₂ : s.next.next.bytes = _ := bytes_next h₁
    have h₃ : s.next.next.next.bytes = _ := bytes_next h₂
    have h₄ : s.next.next.next.next.bytes = _ := bytes_next h₃
    have h₅ : s.next.next.next.next.next.bytes = _ := bytes_next h₄
    have h₆ : s.next.next.next.next.next.next.bytes = _ := bytes_next h₅
    have h₇ : s.next.next.next.next.next.next.next.bytes = _ := bytes_next h₆
    have h₈ : s.next.next.next.next.next.next.next.next.bytes = _ := bytes_next h₇
    refine h lh ll ?_ (by omega) 8 ?_ rfl hh hl ?_ wh wl ?_ n ?_ hlength
    · change s.bytes = lh :: ll :: s.next.next.bytes
      rw [hbytes, h₂]
    · change s.next.next.bytes = 8 :: s.next.next.next.bytes
      rw [h₂, h₃]
    · change s.next.next.next.bytes = hh :: hl :: s.next.next.next.next.next.bytes
      rw [h₃, h₅]
    · change s₅.bytes = wh :: wl :: s₅.next.next.bytes
      rw [h₅, h₇]
    · change s₅.next.next.bytes = n :: s₅.next.next.next.bytes
      rw [h₇, h₈]
  · intro h lh ll h₁ _ c h₂ hc hh hl h₃ wh wl h₄ n h₅ hlength
    subst hc
    refine h lh ll hh hl wh wl n s.next.next.next.next.next.next.next.next.bytes ?_ hlength
    change s.bytes = lh :: ll :: s.next.next.bytes at h₁
    change s.next.next.bytes = 8 :: s.next.next.next.bytes at h₂
    change s.next.next.next.bytes = hh :: hl :: s.next.next.next.next.next.bytes at h₃
    change s₅.bytes = wh :: wl :: s₅.next.next.bytes at h₄
    change s₅.next.next.bytes = n :: s₅.next.next.next.bytes at h₅
    rw [h₁, h₂, h₃, h₄, h₅]

theorem bytes_sofHeader {s : State} (isProgressive : Bool) (height width : ℕ)
    {a b c d e f g h : UInt8} {r : List UInt8}
    (hbytes : s.bytes = a :: b :: c :: d :: e :: f :: g :: h :: r) :
    (s.sofHeader isProgressive height width).bytes = r :=
  bytes_next (bytes_next (bytes_next (bytes_next (bytes_next (bytes_next (bytes_next
    (bytes_next hbytes)))))))

theorem sofSafe_of_wp {isProgressive : Bool} {s : State} {Q : Unit → State → Prop}
    (h : wp NoFault (getSOF isProgressive) Q s) : SofSafe s := by
  intro lh ll hh hl wh wl n r hbytes hlength
  have hsafe := sofComponents_fault (wp_getSOF isProgressive |>.mp h lh ll hh hl wh wl n r hbytes
    hlength)
  rwa [bytes_sofHeader _ _ _ hbytes] at hsafe

theorem SofSafe.wp_getSOF {s : State} (h : SofSafe s) (hwf : Wf s) (isProgressive : Bool) :
    wp NoFault (getSOF isProgressive) (fun _ => Wf) s := by
  rw [JpegParse.wp_getSOF]
  intro lh ll hh hl wh wl n r hbytes hlength
  refine wp_sofComponents ⟨hwf.comps, hwf.ids⟩ ?_
  rw [bytes_sofHeader _ _ _ hbytes]
  exact h lh ll hh hl wh wl n r hbytes hlength

/-! ## SOS -/

/-- A component with this id has been declared by a SOF. -/
def State.Declared (s : State) (id : ℕ) : Prop := ∃ comp ∈ s.comps, comp.componentId.toNat = id

/-- What a scan leaves of the codec. -/
structure Frame (s t : State) : Prop where
  comps : t.comps = s.comps
  numComponents : t.codec.numComponents = s.codec.numComponents
  compsInScan : t.codec.compsInScan = s.codec.compsInScan

theorem Frame.trans {s t u : State} (h : Frame s t) (h' : Frame t u) : Frame s u :=
  ⟨h'.comps.trans h.comps, h'.numComponents.trans h.numComponents,
    h'.compsInScan.trans h.compsInScan⟩

/-- The next `k` components of a scan, from the `i`-th on, have the ids that are expected. -/
def Ids (k i : ℕ) (b : List UInt8) : Prop :=
  2 * k ≤ b.length ∧ ∀ j < k, b[2 * j]?.map UInt8.toNat = some (i + j + 1)

theorem ids_zero (i : ℕ) (b : List UInt8) : Ids 0 i b := ⟨Nat.zero_le _, nofun⟩

theorem ids_succ_iff (k i : ℕ) (b : List UInt8) : Ids (k + 1) i b ↔
    ∃ cc c r, b = cc :: c :: r ∧ cc.toNat = i + 1 ∧ Ids k (i + 1) r := by
  constructor
  · rintro ⟨hlength, hids⟩
    match b, hlength, hids with
    | cc :: c :: r, hlength, hids =>
        refine ⟨cc, c, r, rfl, by simpa using hids 0 (Nat.succ_pos k), ?_, fun j hj => ?_⟩
        · simp only [List.length_cons] at hlength
          omega
        · have hid := hids (j + 1) (by omega)
          rw [show 2 * (j + 1) = 2 * j + 1 + 1 from rfl, List.getElem?_cons_succ,
            List.getElem?_cons_succ] at hid
          rw [hid]
          congr 1
          omega
  · rintro ⟨cc, c, r, rfl, hcc, hlength, hids⟩
    refine ⟨by simp only [List.length_cons]; omega, fun j hj => ?_⟩
    cases j with
    | zero => simp [hcc]
    | succ j =>
        rw [show 2 * (j + 1) = 2 * j + 1 + 1 from rfl, List.getElem?_cons_succ,
          List.getElem?_cons_succ, hids j (by omega)]
        congr 1
        omega

theorem wp_findComp (E : Stop → Prop) (cc : UInt8) {k ci : ℕ} {s : State}
    (h : ci + k ≤ s.comps.length) : wp E (findComp cc k ci) (fun _ t => t = s) s := by
  induction k generalizing ci with
  | zero => rfl
  | succ k ih =>
      simp only [findComp, wp_bind, wp_fetchComp, wp_ite, wp_pure]
      refine ⟨fun hnone => ?_, fun comp _ => ⟨fun _ => trivial, fun _ => ih (by omega)⟩⟩
      rw [List.getElem?_eq_none_iff] at hnone
      omega

theorem wp_sosComponent {i : ℕ} (hi : i < 3) {s : State}
    (hwf : s.comps.length = s.codec.numComponents) {cc c : UInt8} {r : List UInt8}
    (hbytes : s.bytes = cc :: c :: r) (hcc : cc.toNat = i + 1) :
    wp (fun _ => False) (sosComponent i) (fun _ t => t.bytes = r ∧ Frame s t ∧
      t.codec.tblMap = s.codec.tblMap.set i
        { s.codec.tblMap[i] with dcHuffTblId := c.toNat / 16, acHuffTblId := c.toNat % 16 } hi)
      s := by
  have h₁ : s.next.bytes = c :: r := bytes_next hbytes
  have h₂ : s.next.next.bytes = r := bytes_next h₁
  simp only [sosComponent, wp_bind, wp_getChar, wp_check, wp_updateTblMap, wp_get, hbytes, h₁,
    List.cons.injEq, h₂, and_true, forall_eq', reduceCtorEq, imp_false, not_false_eq_true,
    true_and, hcc, not_true_eq_false, Nat.not_le.mpr hi, forall_const]
  refine fun _ => wp_mono (wp_findComp _ cc ?_) (fun _ he => he) fun found u hu => ?_
  · change 0 + s.codec.numComponents ≤ s.comps.length
    omega
  · subst hu
    simp only [wp_ite, wp_bind, wp_store, wp_modify, wp_pure, Nat.not_le.mpr hi, imp_false,
      not_false_eq_true, true_and]
    exact ⟨fun _ _ => ⟨h₂, ⟨rfl, rfl, rfl⟩, rfl⟩, fun _ => ⟨h₂, ⟨rfl, rfl, rfl⟩, rfl⟩⟩

/-- A component that ends the parse: it has another id, or the stream ends. -/
theorem wp_sosComponent_failed {i : ℕ} {s : State} (h : ¬ Ids 1 i s.bytes)
    (Q : Unit → State → Prop) : wp (fun e => e = .failed) (sosComponent i) Q s := by
  simp only [sosComponent, wp_bind, wp_getChar, wp_check]
  refine ⟨fun _ => trivial, fun cc h₁ => ⟨fun _ => trivial, fun c h₂ => ⟨fun hcc => ?_, ?_⟩⟩⟩
  · refine absurd ((ids_succ_iff 0 i s.bytes).mpr ⟨cc, c, s.next.next.bytes, ?_, hcc, ?_⟩) h
    · rw [h₁, h₂]
    · exact ids_zero _ _
  · exact fun _ => trivial

theorem wp_sosComponent_fault {s : State} (h : Ids 1 3 s.bytes) (Q : Unit → State → Prop) :
    wp (fun e => e = .fault) (sosComponent 3) Q s := by
  obtain ⟨cc, c, r, hbytes, hcc, -⟩ := (ids_succ_iff 0 3 s.bytes).mp h
  have h₁ : s.next.bytes = c :: r := bytes_next hbytes
  have h₂ : s.next.next.bytes = r := bytes_next h₁
  simp [sosComponent, hbytes, h₁, h₂, hcc]

/-- The scan has its components, and no more than the arrays have room for. -/
theorem wp_sosComponents {k i : ℕ} (hik : i + k ≤ 3) {s : State}
    (hwf : s.comps.length = s.codec.numComponents) (h : Ids k i s.bytes) :
    wp (fun _ => False) (each sosComponent k i) (fun _ t => t.bytes = s.bytes.drop (2 * k) ∧
      Frame s t ∧ ∀ (m : ℕ) (hm : m < 3),
        ((m < i ∨ i + k ≤ m) → t.codec.tblMap[m] = s.codec.tblMap[m]) ∧
        ∀ j < k, i + j = m → ∀ c, s.bytes[2 * j + 1]? = some c →
          t.codec.tblMap[m].dcHuffTblId = c.toNat / 16 ∧
          t.codec.tblMap[m].acHuffTblId = c.toNat % 16) s := by
  induction k generalizing i s with
  | zero =>
      refine ⟨rfl, ⟨rfl, rfl, rfl⟩, fun m hm => ⟨fun _ => rfl, fun j hj => ?_⟩⟩
      exact absurd hj (Nat.not_lt_zero j)
  | succ k ih =>
      obtain ⟨cc, c, r, hbytes, hcc, hids⟩ := (ids_succ_iff k i s.bytes).mp h
      rw [each, wp_bind]
      refine wp_mono (wp_sosComponent (by omega) hwf hbytes hcc) (fun _ he => he) ?_
      rintro _ t ⟨ht, hframe, htbl⟩
      have hwf' : t.comps.length = t.codec.numComponents := by
        rw [hframe.comps, hframe.numComponents, hwf]
      refine wp_mono (ih (by omega) hwf' (ht ▸ hids)) (fun _ he => he) ?_
      rintro _ u ⟨hu, hframe', hentries⟩
      refine ⟨?_, hframe.trans hframe', fun m hm => ⟨fun hother => ?_, fun j hj hjm c' hc' => ?_⟩⟩
      · rw [hu, ht, hbytes]
        rfl
      · rw [(hentries m hm).1 (by omega), htbl, Vector.getElem_set_ne _ _ (by omega)]
      · cases j with
        | zero =>
            obtain rfl : i = m := hjm
            rw [hbytes] at hc'
            obtain rfl : c = c' := by simpa using hc'
            rw [(hentries i hm).1 (by omega), htbl, Vector.getElem_set_self]
            exact ⟨rfl, rfl⟩
        | succ j =>
            refine (hentries m hm).2 j (by omega) (by omega) c' ?_
            rw [ht]
            rw [hbytes, show 2 * (j + 1) + 1 = 2 * j + 1 + 1 + 1 from rfl,
              List.getElem?_cons_succ, List.getElem?_cons_succ] at hc'
            exact hc'

/-- A scan whose next components are not the expected ones ends the parse. -/
theorem wp_sosComponents_failed {k i : ℕ} (hi : i ≤ 3) {s : State}
    (hwf : s.comps.length = s.codec.numComponents) (h : ¬ Ids (min k (4 - i)) i s.bytes)
    (Q : Unit → State → Prop) : wp (fun e => e = .failed) (each sosComponent k i) Q s := by
  induction k generalizing i s with
  | zero => exact absurd (by rw [Nat.zero_min]; exact ids_zero i s.bytes) h
  | succ k ih =>
      rw [each, wp_bind]
      by_cases hhead : Ids 1 i s.bytes
      · obtain ⟨cc, c, r, hbytes, hcc, -⟩ := (ids_succ_iff 0 i s.bytes).mp hhead
        by_cases hi' : i < 3
        · refine wp_mono (wp_sosComponent hi' hwf hbytes hcc) (fun _ he => he.elim) ?_
          rintro _ t ⟨ht, hframe, -⟩
          have hwf' : t.comps.length = t.codec.numComponents := by
            rw [hframe.comps, hframe.numComponents, hwf]
          refine ih (by omega) hwf' fun hids => h ?_
          rw [show min (k + 1) (4 - i) = min k (4 - (i + 1)) + 1 by omega]
          exact (ids_succ_iff _ i s.bytes).mpr ⟨cc, c, r, hbytes, hcc, ht ▸ hids⟩
        · rw [show min (k + 1) (4 - i) = 1 by omega] at h
          exact absurd hhead h
      · exact wp_sosComponent_failed hhead _

/-- A scan of more than three components, the first four of them the expected ones. -/
theorem wp_sosComponents_fault {k i : ℕ} (hi : i ≤ 3) (hik : 3 < i + k) {s : State}
    (hwf : s.comps.length = s.codec.numComponents) (h : Ids (4 - i) i s.bytes)
    (Q : Unit → State → Prop) : wp (fun e => e = .fault) (each sosComponent k i) Q s := by
  induction k generalizing i s with
  | zero => omega
  | succ k ih =>
      rw [each, wp_bind]
      by_cases hi' : i < 3
      · rw [show 4 - i = 4 - (i + 1) + 1 by omega] at h
        obtain ⟨cc, c, r, hbytes, hcc, hids⟩ := (ids_succ_iff _ i s.bytes).mp h
        refine wp_mono (wp_sosComponent hi' hwf hbytes hcc) (fun _ he => he.elim) ?_
        rintro _ t ⟨ht, hframe, -⟩
        have hwf' : t.comps.length = t.codec.numComponents := by
          rw [hframe.comps, hframe.numComponents, hwf]
        exact ih (by omega) (by omega) hwf' (ht ▸ hids)
      · obtain rfl : i = 3 := by omega
        exact wp_sosComponent_fault h _

/-- What a successful parse promises to the decoder. -/
structure Good (s : State) : Prop where
  components : 1 ≤ s.codec.numComponents ∧ s.codec.numComponents ≤ 3
  scan : s.codec.compsInScan ≤ s.codec.numComponents
  declared : ∀ j < s.codec.compsInScan, s.Declared (j + 1)
  tables : ∀ (i : ℕ) (h : i < 3), s.codec.tblMap[i].dcHuffTblId < NUM_HUFF_TBLS ∧
    s.codec.tblMap[i].acHuffTblId < NUM_HUFF_TBLS

theorem wp_sosParameters_iff (s : State) :
    wp NoFault sosParameters (fun _ => Good) s ↔ (3 ≤ s.bytes.length → Good s) := by
  simp only [sosParameters, wp_bind, wp_getChar, wp_modify, noFault_failed, implies_true,
    true_and]
  constructor
  · intro h hlength
    obtain ⟨a, l₁, hbytes⟩ := List.exists_cons_of_length_pos (show 0 < s.bytes.length by omega)
    rw [hbytes, List.length_cons] at hlength
    obtain ⟨b, l₂, rfl⟩ := List.exists_cons_of_length_pos (show 0 < l₁.length by omega)
    rw [List.length_cons] at hlength
    obtain ⟨c, r, rfl⟩ := List.exists_cons_of_length_pos (show 0 < l₂.length by omega)
    have h₁ : s.next.bytes = b :: c :: r := bytes_next hbytes
    have h₂ : s.next.next.bytes = c :: r := bytes_next h₁
    have h₃ : s.next.next.next.bytes = r := bytes_next h₂
    have hgood := h a (by rw [h₁, hbytes]) b (by rw [h₁, h₂]) c (by
      change s.next.next.bytes = c :: s.next.next.next.bytes
      rw [h₂, h₃])
    exact ⟨hgood.components, hgood.scan, hgood.declared, hgood.tables⟩
  · intro h a h₁ b h₂ c h₃
    change s.next.next.bytes = c :: s.next.next.next.bytes at h₃
    have hgood := h (by rw [h₁, h₂, h₃]; simp)
    exact ⟨hgood.components, hgood.scan, hgood.declared, hgood.tables⟩

/-- Scan components with the ids 1, 2, … are no more than the declared components. -/
theorem length_le_of_declared {n : ℕ} {l : List Component}
    (h : ∀ j < n, ∃ comp ∈ l, comp.componentId.toNat = j + 1) : n ≤ l.length := by
  have hsub : (List.range' 1 n).Subperm (l.map fun comp => comp.componentId.toNat) := by
    refine List.Nodup.subperm List.nodup_range' fun id hid => ?_
    rw [List.mem_range'_1] at hid
    obtain ⟨comp, hcomp, heq⟩ := h (id - 1) (by omega)
    exact List.mem_map.mpr ⟨comp, hcomp, by omega⟩
  simpa using hsub.length_le

/-- The condition on a SOS: its first four components, if there are as many, do not have
the ids 1 to 4; and when all of it is as expected, there are one to three components, the
scan's have been declared, and they choose among the tables that exist. -/
def SosSafe (s : State) : Prop :=
  ∀ lh ll n r, s.bytes = lh :: ll :: n :: r → word lh ll = n.toNat * 2 + 6 →
    ¬(4 ≤ n.toNat ∧ Ids 4 0 r) ∧
    (Ids n.toNat 0 r → n.toNat * 2 + 3 ≤ r.length →
      (1 ≤ s.codec.numComponents ∧ s.codec.numComponents ≤ 3) ∧
      ∀ j < n.toNat, s.Declared (j + 1) ∧ ∃ c, r[2 * j + 1]? = some c ∧
        c.toNat / 16 < NUM_HUFF_TBLS ∧ c.toNat % 16 < NUM_HUFF_TBLS)

def State.sosHeader (s : State) (n : ℕ) : State :=
  s.next.next.next.setCodec { s.codec with compsInScan := n }

theorem wp_getSOS {s : State} {Q : Unit → State → Prop} : wp NoFault getSOS Q s ↔
    ∀ lh ll n r, s.bytes = lh :: ll :: n :: r → word lh ll = n.toNat * 2 + 6 →
      wp NoFault (each sosComponent n.toNat 0) (fun _ => wp NoFault sosParameters Q)
        (s.sosHeader n.toNat) := by
  simp only [getSOS, wp_bind, wp_modify, wp_getShortWord, wp_getChar, wp_check, noFault_failed,
    implies_true, true_and, and_true]
  constructor
  · intro h lh ll n r hbytes hlength
    have h₁ : s.next.bytes = _ := bytes_next hbytes
    have h₂ : s.next.next.bytes = _ := bytes_next h₁
    have h₃ : s.next.next.next.bytes = _ := bytes_next h₂
    exact h lh ll (by rw [hbytes, h₂]) (by omega) n (by rw [h₂, h₃]) (by omega)
  · intro h lh ll h₁ hlow n h₂ hlength
    exact h lh ll n s.next.next.next.bytes (by rw [h₁, h₂]) (by omega)

/-- What the scan has left is good if and only if its components are. -/
theorem good_iff {s t : State} {n : ℕ} (hwf : Wf s) (hn : n ≤ 3) {r : List UInt8}
    (hr : n * 2 + 3 ≤ r.length) (hframe : Frame (s.sosHeader n) t)
    (hentries : ∀ (m : ℕ) (hm : m < 3),
      ((m < 0 ∨ 0 + n ≤ m) → t.codec.tblMap[m] = s.codec.tblMap[m]) ∧
      ∀ j < n, 0 + j = m → ∀ c, r[2 * j + 1]? = some c →
        t.codec.tblMap[m].dcHuffTblId = c.toNat / 16 ∧
        t.codec.tblMap[m].acHuffTblId = c.toNat % 16) :
    Good t ↔ (1 ≤ s.codec.numComponents ∧ s.codec.numComponents ≤ 3) ∧
      ∀ j < n, s.Declared (j + 1) ∧ ∃ c, r[2 * j + 1]? = some c ∧
        c.toNat / 16 < NUM_HUFF_TBLS ∧ c.toNat % 16 < NUM_HUFF_TBLS := by
  have hnum : t.codec.numComponents = s.codec.numComponents := hframe.numComponents
  have hscan : t.codec.compsInScan = n := hframe.compsInScan
  have hdeclared : ∀ id, t.Declared id ↔ s.Declared id := by
    intro id
    rw [State.Declared, State.Declared, hframe.comps]
    rfl
  constructor
  · intro h
    refine ⟨hnum ▸ h.components, fun j hj => ⟨?_, ?_⟩⟩
    · rw [← hdeclared]
      exact h.declared j (hscan ▸ hj)
    · have hlt : 2 * j + 1 < r.length := by omega
      have htbl := (hentries j (by omega)).2 j hj (Nat.zero_add j) _ (List.getElem?_eq_getElem hlt)
      refine ⟨_, List.getElem?_eq_getElem hlt, ?_⟩
      rw [← htbl.1, ← htbl.2]
      exact h.tables j (by omega)
  · rintro ⟨hcomponents, hcomps⟩
    have hdecl : ∀ j < n, s.Declared (j + 1) := fun j hj => (hcomps j hj).1
    refine ⟨hnum ▸ hcomponents, ?_, fun j hj => ?_, fun m hm => ?_⟩
    · rw [hscan, hnum, ← hwf.comps]
      exact length_le_of_declared hdecl
    · rw [hdeclared]
      exact hdecl j (hscan ▸ hj)
    · by_cases hmn : m < n
      · obtain ⟨c, hc, hbelow⟩ := (hcomps m hmn).2
        have htbl := (hentries m hm).2 m hmn (Nat.zero_add m) c hc
        rw [htbl.1, htbl.2]
        exact hbelow
      · rw [(hentries m hm).1 (by omega), (hwf.ids m hm).1, (hwf.ids m hm).2]
        exact ⟨by decide, by decide⟩

/-- A SOS is read without a fault, and leaves a good scan if it succeeds, exactly if it
meets its condition. -/
theorem wp_getSOS_iff {s : State} (hwf : Wf s) :
    wp NoFault getSOS (fun _ => Good) s ↔ SosSafe s := by
  rw [wp_getSOS]
  have hcomps : ∀ n, (s.sosHeader n).comps.length = (s.sosHeader n).codec.numComponents :=
    fun n => hwf.comps
  constructor
  · intro h lh ll n r hbytes hlength
    have hw := h lh ll n r hbytes hlength
    have hr : (s.sosHeader n.toNat).bytes = r :=
      bytes_next (bytes_next (bytes_next hbytes))
    have hfour : ¬(4 ≤ n.toNat ∧ Ids 4 0 r) := by
      rintro ⟨hn, hids⟩
      have hfault := wp_sosComponents_fault (Nat.zero_le 3) (by omega) (hcomps n.toNat)
        (hr ▸ hids) (fun _ _ => False) (k := n.toNat)
      obtain ⟨_, _, _, hfalse⟩ := exists_yields_of_wp (wp_mono (wp_and hw hfault)
        (fun e he => he.1 he.2) fun _ _ hq => hq.2)
      exact hfalse
    refine ⟨hfour, fun hids hlong => ?_⟩
    have hn : n.toNat ≤ 3 := by
      by_contra hn
      refine hfour ⟨by omega, by omega, fun j hj => hids.2 j (by omega)⟩
    obtain ⟨_, t, ht, hbytes', hframe, hentries⟩ :=
      exists_yields_of_wp (wp_sosComponents (by omega) (hcomps n.toNat) (hr ▸ hids))
    rw [hr] at hbytes' hentries
    have hgood := (wp_sosParameters_iff t).mp ((wp_of_yields ht).mp hw) (by
      rw [hbytes', List.length_drop]
      omega)
    exact (good_iff hwf hn hlong hframe hentries).mp hgood
  · intro h lh ll n r hbytes hlength
    obtain ⟨hfour, hgood⟩ := h lh ll n r hbytes hlength
    have hr : (s.sosHeader n.toNat).bytes = r :=
      bytes_next (bytes_next (bytes_next hbytes))
    by_cases hids : Ids (min n.toNat 4) 0 r
    · have hn : n.toNat ≤ 3 := by
        by_contra hn
        rw [Nat.min_eq_right (by omega)] at hids
        exact hfour ⟨by omega, hids⟩
      rw [Nat.min_eq_left (by omega)] at hids
      refine wp_mono (wp_sosComponents (by omega) (hcomps n.toNat) (hr ▸ hids))
        (fun _ he => he.elim) ?_
      rintro _ t ⟨hbytes', hframe, hentries⟩
      rw [hr] at hbytes' hentries
      rw [wp_sosParameters_iff, hbytes', List.length_drop]
      intro hlong
      have hlong' : n.toNat * 2 + 3 ≤ r.length := by
        have := hids.1
        omega
      exact (good_iff hwf hn hlong' hframe hentries).mpr (hgood hids hlong')
    · refine wp_mono (wp_sosComponents_failed (Nat.zero_le 3) (hcomps n.toNat) (hr ▸ hids)
        fun _ _ => False) ?_ fun _ _ hfalse => hfalse.elim
      rintro e rfl
      exact noFault_failed

end JpegParse

end Tarako
