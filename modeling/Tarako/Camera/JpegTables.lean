import Tarako.Camera.JpegBounds

/-!
# The tables of a header

What `GetHuffTbl` and `GetQuantTbl` access, table by table. A table comes to a fault when
its array could not be allocated, a DC table also when it has more symbols than the default
one; the comparison of the chroma tables does when one of them is missing.
-/

namespace Tarako

namespace JpegParse

open Prog

/-! ## What the tables leave alone -/

/-- The stream is no longer than before, and the components and their entries are the same. -/
structure Same (s t : State) : Prop where
  bytes : t.bytes.length ≤ s.bytes.length
  comps : t.comps = s.comps
  numComponents : t.codec.numComponents = s.codec.numComponents
  tblMap : t.codec.tblMap = s.codec.tblMap

theorem Same.refl (s : State) : Same s s := ⟨Nat.le_refl _, rfl, rfl, rfl⟩

theorem Same.trans (s t u : State) (h : Same s t) (h' : Same t u) : Same s u :=
  ⟨Nat.le_trans h'.bytes h.bytes, h'.comps.trans h.comps,
    h'.numComponents.trans h.numComponents, h'.tblMap.trans h.tblMap⟩

theorem Same.wf {s t : State} (h : Same s t) (hwf : Wf s) : Wf t := by
  refine ⟨?_, ?_⟩
  · rw [h.comps, h.numComponents]
    exact hwf.comps
  · rw [h.tblMap]
    exact hwf.ids

theorem same_next {s : State} {c : UInt8} (h : s.bytes = c :: s.next.bytes) : Same s s.next := by
  refine ⟨?_, rfl, rfl, rfl⟩
  rw [h, List.length_cons]
  exact Nat.le_succ _

theorem same_getChar : Keeps Same getChar := by
  rw [keeps_iff_wp]
  intro s
  rw [wp_getChar]
  exact ⟨fun _ => trivial, fun c hc => same_next hc⟩

theorem same_bind {α β : Type} {m : M α} {f : α → M β} (hm : Keeps Same m)
    (hf : ∀ a, Keeps Same (f a)) : Keeps Same (m >>= f) :=
  keeps_bind Same.trans hm hf

theorem same_getShortWord : Keeps Same getShortWord :=
  same_bind same_getChar fun _ => same_bind same_getChar fun _ => keeps_pure Same.refl _

theorem same_of_wp {α : Type} {m : M α} (h : ∀ s, wp (fun _ => True) m (fun _ t => t = s) s) :
    Keeps Same m := by
  rw [keeps_iff_wp]
  refine fun s => wp_mono (h s) (fun _ he => he) fun _ t ht => ?_
  rw [ht]
  exact Same.refl s

theorem same_fetch {α : Type} (l : List α) (i : ℕ) : Keeps Same (fetch l i) :=
  same_of_wp fun _ => by simp

theorem same_store {α : Type} {n : ℕ} (v : Vector α n) (i : ℕ) (x : α) :
    Keeps Same (store v i x) :=
  same_of_wp fun _ => by simp

theorem same_deref {α : Type} (p : Option α) : Keeps Same (deref p) :=
  same_of_wp fun _ => by simp

/-- A change of the codec that leaves the components and their entries alone. -/
theorem same_modify {f : Codec → Codec} (hcomps : ∀ c, (f c).compInfo = c.compInfo)
    (hnum : ∀ c, (f c).numComponents = c.numComponents) (htbl : ∀ c, (f c).tblMap = c.tblMap) :
    Keeps Same (modify fun s => s.setCodec (f s.codec) : M PUnit) := by
  refine keeps_modify fun s => ⟨Nat.le_refl _, ?_, hnum s.codec, htbl s.codec⟩
  rw [State.comps, State.comps, State.setCodec, hcomps]

theorem same_extraMemAlloc {α : Type} (memSize : ℕ) (x : α) :
    Keeps Same (extraMemAlloc memSize x) :=
  same_bind (keeps_get Same.refl) fun _ => same_bind (keeps_check Same.refl _ _) fun _ =>
    same_bind (keeps_modify fun _ => ⟨Nat.le_refl _, rfl, rfl, rfl⟩) fun _ =>
      keeps_pure Same.refl _

theorem same_each {body : ℕ → M Unit} (h : ∀ i, Keeps Same (body i)) (k i : ℕ) :
    Keeps Same (each body k i) :=
  keeps_each Same.refl Same.trans h k i

/-! ## Segments without tables -/

theorem same_skipBytes (n : ℕ) : Keeps Same (skipBytes n) :=
  same_each (fun _ => same_bind same_getChar fun _ => keeps_pure Same.refl _) n 0

theorem wp_skipBytes (n : ℕ) (s : State) : wp NoFault (skipBytes n) (fun _ _ => True) s := by
  refine wp_each (n := 0 + n) (fun _ _ _ _ => ?_) (Nat.le_refl _) trivial
  simp

theorem same_skipVariable : Keeps Same skipVariable :=
  same_bind same_getShortWord fun _ => same_bind (keeps_check Same.refl _ _) fun _ =>
    same_skipBytes _

theorem wp_skipVariable (s : State) : wp NoFault skipVariable (fun _ _ => True) s := by
  simp only [skipVariable, wp_bind, wp_getShortWord, wp_check]
  exact ⟨fun _ => noFault_failed, fun _ _ _ => ⟨fun _ => wp_skipBytes _ _,
    fun _ => noFault_failed⟩⟩

theorem same_getDRI : Keeps Same getDRI :=
  same_bind same_getShortWord fun _ => same_bind (keeps_check Same.refl _ _) fun _ =>
    same_bind same_getShortWord fun w => same_modify
      (f := fun c => { c with restartInterval := w, restartToGo := w, nextRestartNum := 0 })
      (fun _ => rfl) (fun _ => rfl) (fun _ => rfl)

theorem wp_getDRI (s : State) : wp NoFault getDRI (fun _ _ => True) s := by
  simp [getDRI]

theorem same_getAPP0 : Keeps Same getAPP0 :=
  same_bind same_getShortWord fun _ => same_bind (keeps_check Same.refl _ _) fun _ =>
    keeps_ite (same_bind (same_skipBytes _) fun _ => same_skipBytes _) (keeps_pure Same.refl _)

theorem wp_getAPP0 (s : State) : wp NoFault getAPP0 (fun _ _ => True) s := by
  simp only [getAPP0, wp_bind, wp_getShortWord, wp_check, wp_ite, wp_pure]
  refine ⟨fun _ => noFault_failed, fun hi lo _ => ⟨fun _ => ⟨fun _ => ?_, fun _ => trivial⟩,
    fun _ => noFault_failed⟩⟩
  exact wp_mono (wp_skipBytes _ _) (fun _ he => he) fun _ t _ => wp_skipBytes _ t

/-! ## Huffman tables -/

theorem same_updateHuffTbl (ac : Bool) (index : ℕ) {f : HuffTbl → M HuffTbl}
    (hf : ∀ tbl, Keeps Same (f tbl)) : Keeps Same (updateHuffTbl ac index f) := by
  refine same_bind (keeps_get Same.refl) fun _ => same_bind (same_fetch _ _) fun tbl =>
    same_bind (hf tbl) fun _ => same_bind (same_store _ _ _) fun tbls => ?_
  refine same_modify (f := fun c =>
    if ac then { c with acHuffTbl := tbls } else { c with dcHuffTbl := tbls }) ?_ ?_ ?_
  · intro c
    cases ac with
    | false => rfl
    | true => rfl
  · intro c
    cases ac with
    | false => rfl
    | true => rfl
  · intro c
    cases ac with
    | false => rfl
    | true => rfl

theorem same_setBits (ac : Bool) (index i : ℕ) (c : UInt8) : Keeps Same (setBits ac index i c) :=
  same_updateHuffTbl ac index fun _ => same_bind (same_deref _) fun _ =>
    same_bind (same_store _ _ _) fun _ => keeps_pure Same.refl _

theorem same_setHuffval (ac : Bool) (index i : ℕ) (c : UInt8) :
    Keeps Same (setHuffval ac index i c) :=
  same_updateHuffTbl ac index fun _ => same_bind (same_deref _) fun _ =>
    same_bind (same_store _ _ _) fun _ => keeps_pure Same.refl _

theorem same_compareDefault (table : List UInt8) (i : ℕ) (c : UInt8) :
    Keeps Same (compareDefault table i c) :=
  same_bind (same_fetch _ _) fun _ => keeps_ite
    (same_modify (f := fun c => { c with usingDefaultHuffTab := false }) (fun _ => rfl)
      (fun _ => rfl) fun _ => rfl) (keeps_pure Same.refl _)

theorem same_readBits (ac : Bool) (index k i count : ℕ) :
    Keeps Same (readBits ac index k i count) := by
  induction k generalizing i count with
  | zero => exact keeps_pure Same.refl _
  | succ k ih =>
      exact same_bind same_getChar fun c => same_bind (same_setBits ac index i c) fun _ =>
        same_bind (same_compareDefault _ _ _) fun _ => ih _ _

theorem same_readTable (ac : Bool) (index : ℕ) : Keeps Same (readTable ac index) :=
  same_bind (same_readBits _ _ _ _ _) fun _ => same_bind (keeps_check Same.refl _ _) fun _ =>
    same_bind (same_each (fun _ => same_bind same_getChar fun _ =>
      same_bind (same_setHuffval _ _ _ _) fun _ => same_compareDefault _ _ _) _ _) fun _ =>
        keeps_pure Same.refl _

theorem same_huffTable : Keeps Same huffTable :=
  same_bind same_getChar fun _ => same_bind (same_setBits _ _ _ _) fun _ => same_readTable _ _

theorem same_huffTurn (length : ℕ) : Keeps Same (huffTurn length) :=
  keeps_ite (keeps_pure Same.refl _) (same_bind same_huffTable fun _ =>
    same_bind (keeps_check Same.refl _ _) fun _ => keeps_pure Same.refl _)

theorem same_allocHuffTbls : Keeps Same allocHuffTbls := by
  refine same_bind (keeps_get Same.refl) fun _ => keeps_ite ?_ (keeps_pure Same.refl _)
  refine same_bind (same_each (fun i => ?_) _ _) fun _ =>
    same_modify (f := fun c => { c with huffTblMalloced := true }) (fun _ => rfl)
      (fun _ => rfl) fun _ => rfl
  exact same_bind (same_extraMemAlloc _ _) fun _ => same_bind (same_extraMemAlloc _ _) fun _ =>
    same_bind (same_extraMemAlloc _ _) fun _ => same_bind (same_extraMemAlloc _ _) fun _ =>
      same_bind (same_updateHuffTbl _ _ fun _ => keeps_pure Same.refl _) fun _ =>
        same_updateHuffTbl _ _ fun _ => keeps_pure Same.refl _

theorem same_getHuffTbl : Keeps Same getHuffTbl :=
  same_bind same_allocHuffTbls fun _ => same_bind same_getShortWord fun _ =>
    same_bind (keeps_check Same.refl _ _) fun _ =>
      keeps_loop Same.refl Same.trans same_huffTurn _ _ _

def State.huffTbl (s : State) (ac : Bool) (index : ℕ) (h : index < NUM_HUFF_TBLS) : HuffTbl :=
  (huffTbls s.codec ac)[index]

def State.setHuffTbl (s : State) (ac : Bool) (index : ℕ) (tbl : HuffTbl)
    (h : index < NUM_HUFF_TBLS) : State :=
  s.setCodec
    (if ac then { s.codec with acHuffTbl := (huffTbls s.codec ac).set index tbl h }
    else { s.codec with dcHuffTbl := (huffTbls s.codec ac).set index tbl h })

section Accesses

variable {E : Stop → Prop} {s : State} {ac : Bool} {index : ℕ}

@[simp] theorem huffTbl_setHuffTbl (tbl : HuffTbl) (h : index < NUM_HUFF_TBLS) :
    (s.setHuffTbl ac index tbl h).huffTbl ac index h = tbl := by
  cases ac with
  | false => exact Vector.getElem_set_self h
  | true => exact Vector.getElem_set_self h

@[simp] theorem bytes_setHuffTbl (tbl : HuffTbl) (h : index < NUM_HUFF_TBLS) :
    (s.setHuffTbl ac index tbl h).bytes = s.bytes := rfl

@[simp] theorem bytes_setCodec (c : Codec) : (s.setCodec c).bytes = s.bytes := rfl

theorem wp_updateHuffTbl (h : index < NUM_HUFF_TBLS) {f : HuffTbl → M HuffTbl}
    {Q : Unit → State → Prop} : wp E (updateHuffTbl ac index f) Q s ↔
      wp E (f (s.huffTbl ac index h)) (fun tbl t => Q () (t.setCodec
        (if ac then { t.codec with acHuffTbl := (huffTbls s.codec ac).set index tbl h }
        else { t.codec with dcHuffTbl := (huffTbls s.codec ac).set index tbl h }))) s := by
  have hget : (huffTbls s.codec ac).toList[index]? = some (s.huffTbl ac index h) := by
    simp [State.huffTbl, h]
  simp only [updateHuffTbl, wp_bind, wp_get, wp_fetch, hget, reduceCtorEq, Option.some.injEq,
    forall_eq', false_imp_iff, true_and]
  refine wp_congr fun tbl t => ?_
  rw [wp_bind, wp_store]
  refine ⟨fun hstore => hstore.2 h, fun hQ => ⟨fun hge => ?_, fun _ => hQ⟩⟩
  exact absurd h (Nat.not_lt.mpr hge)

theorem wp_setBits (h : index < NUM_HUFF_TBLS) {i : ℕ} {c : UInt8} {Q : Unit → State → Prop} :
    wp E (setBits ac index i c) Q s ↔
      ((s.huffTbl ac index h).bits = none → E .fault) ∧
      ∀ bits, (s.huffTbl ac index h).bits = some bits → (MAX_BITS_SIZE + 1 ≤ i → E .fault) ∧
        ∀ hi : i < MAX_BITS_SIZE + 1, Q () (s.setHuffTbl ac index
          { s.huffTbl ac index h with bits := some (bits.set i c hi) } h) := by
  simp only [setBits, wp_updateHuffTbl h, wp_bind, wp_deref, wp_store, wp_pure, State.setHuffTbl]

theorem wp_setHuffval (h : index < NUM_HUFF_TBLS) {i : ℕ} {c : UInt8}
    {Q : Unit → State → Prop} : wp E (setHuffval ac index i c) Q s ↔
      ((s.huffTbl ac index h).huffval = none → E .fault) ∧
      ∀ huffval, (s.huffTbl ac index h).huffval = some huffval →
        (AC_SYMBOL_NUM + 1 ≤ i → E .fault) ∧
        ∀ hi : i < AC_SYMBOL_NUM + 1, Q () (s.setHuffTbl ac index
          { s.huffTbl ac index h with huffval := some (huffval.set i c hi) } h) := by
  simp only [setHuffval, wp_updateHuffTbl h, wp_bind, wp_deref, wp_store, wp_pure,
    State.setHuffTbl]

theorem wp_compareDefault {table : List UInt8} {i : ℕ} {c : UInt8} (hi : i < table.length) :
    wp (fun _ => False) (compareDefault table i c) (fun _ t => t.stream = s.stream ∧
      ∀ ac index h, t.huffTbl ac index h = s.huffTbl ac index h) s := by
  simp only [compareDefault, wp_bind, wp_fetch, wp_ite, wp_modify, wp_pure]
  refine ⟨fun hnone => ?_, fun d _ => ⟨fun _ => ⟨rfl, fun ac index h => ?_⟩, fun _ => ?_⟩⟩
  · rw [List.getElem?_eq_none_iff] at hnone
    omega
  · cases ac with
    | false => rfl
    | true => rfl
  · exact ⟨trivial, fun _ _ _ => trivial⟩

end Accesses

theorem length_defaultBits (ac : Bool) (index : ℕ) :
    (defaultBits ac index).length = MAX_BITS_SIZE + 1 := by
  rw [defaultBits]
  split_ifs <;> rfl

theorem length_defaultHuffval (ac : Bool) (index : ℕ) :
    (defaultHuffval ac index).length = if ac then AC_SYMBOL_NUM else 12 := by
  rw [defaultHuffval]
  split_ifs <;> decide +kernel

/-- The numbers of symbols of a table are read: the array of its symbols stays there. -/
theorem wp_readBits {ac : Bool} {index : ℕ} (h : index < NUM_HUFF_TBLS) {k i count : ℕ}
    (hik : i + k ≤ MAX_BITS_SIZE + 1) {s : State} (hbits : (s.huffTbl ac index h).bits ≠ none)
    (hk : k ≤ s.bytes.length) : wp (fun _ => False) (readBits ac index k i count)
      (fun n t => n = count + ((s.bytes.take k).map UInt8.toNat).sum ∧
        t.bytes = s.bytes.drop k ∧
        ((t.huffTbl ac index h).huffval = none ↔ (s.huffTbl ac index h).huffval = none)) s := by
  induction k generalizing i count s with
  | zero => exact ⟨rfl, rfl, Iff.rfl⟩
  | succ k ih =>
      match hbytes : s.bytes, hk with
      | c :: r, hk =>
          have hnext : s.next.bytes = r := bytes_next hbytes
          obtain ⟨bits, hsome⟩ := Option.ne_none_iff_exists'.mp hbits
          have hi : i < MAX_BITS_SIZE + 1 := by omega
          rw [readBits, wp_bind, wp_getChar]
          refine ⟨fun hnil => absurd (hbytes.symm.trans hnil) nofun, fun c' hc' => ?_⟩
          rw [hnext, hbytes] at hc'
          obtain ⟨rfl, -⟩ := List.cons.inj hc'
          rw [wp_bind, wp_setBits h]
          refine ⟨fun hnone => hbits hnone, fun bits' _ => ⟨fun hge => by omega, fun _ => ?_⟩⟩
          rw [wp_bind]
          refine wp_mono (wp_compareDefault (by rw [length_defaultBits]; exact hi))
            (fun _ he => he) ?_
          rintro _ t ⟨hstream, htbls⟩
          have htbl := htbls ac index h
          have ht : t.bytes = r := by
            rw [State.bytes, hstream]
            exact hnext
          rw [huffTbl_setHuffTbl] at htbl
          refine wp_mono (ih (by omega) (by rw [htbl]; nofun) ?_) (fun _ he => he) ?_
          · rw [ht]
            simpa using hk
          · rintro n u ⟨hn, hu, hvals⟩
            rw [ht] at hn hu
            refine ⟨?_, hu, ?_⟩
            · rw [hn, List.take_succ_cons, List.map_cons, List.sum_cons]
              omega
            · rw [hvals, htbl]
              exact Iff.rfl

theorem wp_readBits_failed {ac : Bool} {index : ℕ} (h : index < NUM_HUFF_TBLS) {k i count : ℕ}
    (hik : i + k ≤ MAX_BITS_SIZE + 1) {s : State} (hbits : (s.huffTbl ac index h).bits ≠ none)
    (hk : s.bytes.length < k) (Q : ℕ → State → Prop) :
    wp (fun e => e = .failed) (readBits ac index k i count) Q s := by
  induction k generalizing i count s with
  | zero => exact absurd hk (Nat.not_lt_zero _)
  | succ k ih =>
      have hi : i < MAX_BITS_SIZE + 1 := by omega
      rw [readBits, wp_bind, wp_getChar]
      refine ⟨fun _ => rfl, fun c hc => ?_⟩
      rw [hc, List.length_cons] at hk
      rw [wp_bind, wp_setBits h]
      refine ⟨fun hnone => absurd hnone hbits, fun bits' _ => ⟨fun hge => by omega, fun _ => ?_⟩⟩
      rw [wp_bind]
      refine wp_mono (wp_compareDefault (by rw [length_defaultBits]; exact hi))
        (fun _ he => he.elim) ?_
      rintro _ t ⟨hstream, htbls⟩
      have htbl := htbls ac index h
      rw [huffTbl_setHuffTbl] at htbl
      refine ih (by omega) (by rw [htbl]; nofun) ?_
      rw [State.bytes, hstream]
      exact Nat.lt_of_succ_lt_succ hk

/-- The symbols of a table: their array is there as soon as one of them is read, and there
are no more than the default table has. -/
theorem wp_readHuffval_iff {ac : Bool} {index : ℕ} (h : index < NUM_HUFF_TBLS) {k i : ℕ}
    {s : State} (hi : i ≤ (defaultHuffval ac index).length) :
    wp NoFault (each (readHuffval ac index) k i) (fun _ _ => True) s ↔
      (0 < min k s.bytes.length → (s.huffTbl ac index h).huffval ≠ none ∧
        i + min k s.bytes.length ≤ (defaultHuffval ac index).length) := by
  induction k generalizing i s with
  | zero => simp [each]
  | succ k ih =>
      rw [each, wp_bind, readHuffval, wp_bind, wp_getChar]
      cases hbytes : s.bytes with
      | nil => simp
      | cons c r =>
          have hnext : s.next.bytes = r := bytes_next hbytes
          have hlen : (defaultHuffval ac index).length ≤ AC_SYMBOL_NUM := by
            rw [length_defaultHuffval]
            cases ac <;> decide
          rw [hnext]
          constructor
          · rintro ⟨-, hw⟩ -
            have hset := (wp_setHuffval h).mp ((wp_bind _ _).mp (hw c rfl))
            have hsome : (s.huffTbl ac index h).huffval ≠ none := fun hnone =>
              not_noFault_fault (hset.1 hnone)
            obtain ⟨huffval, hhuffval⟩ := Option.ne_none_iff_exists'.mp hsome
            have hrest := (hset.2 huffval hhuffval).2 (by omega)
            have hlt : i < (defaultHuffval ac index).length := by
              by_contra hge
              have hfetch := (wp_fetch.mp ((wp_bind _ _).mp hrest)).1
              exact not_noFault_fault (hfetch (List.getElem?_eq_none_iff.mpr (by omega)))
            refine ⟨hsome, ?_⟩
            obtain ⟨_, t, ht, hstream, htbls⟩ := exists_yields_of_wp (wp_compareDefault
              (c := c) (s := s.next.setHuffTbl ac index
                { s.huffTbl ac index h with huffval := some (huffval.set i c (by omega)) } h) hlt)
            have hih := (ih (s := t) hlt).mp ((wp_of_yields ht).mp hrest)
            have hbytes' : t.bytes = r := by
              rw [State.bytes, hstream]
              exact hnext
            rw [hbytes'] at hih
            simp only [List.length_cons]
            by_cases hpos : 0 < min k r.length
            · have := (hih hpos).2
              omega
            · omega
          · intro hcond
            obtain ⟨hsome, hle⟩ := hcond (by simp)
            simp only [List.length_cons] at hle
            refine ⟨fun hnil => absurd hnil (List.cons_ne_nil c r), fun c' _ => ?_⟩
            rw [wp_bind, wp_setHuffval h]
            refine ⟨fun hnone => absurd hnone hsome, fun huffval _ =>
              ⟨fun hge => by omega, fun hi' => ?_⟩⟩
            refine wp_mono (wp_compareDefault (by omega)) (fun _ he => he.elim) ?_
            rintro _ t ⟨hstream, htbls⟩
            have htbl := htbls ac index h
            rw [huffTbl_setHuffTbl] at htbl
            have hbytes' : t.bytes = r := by
              rw [State.bytes, hstream]
              exact hnext
            rw [ih (by omega), hbytes', htbl]
            exact fun _ => ⟨Option.some_ne_none _, by omega⟩

def isAc (c : UInt8) : Bool := decide (c.toNat / 16 % 2 = 1)

theorem index_lt (c : UInt8) : c.toNat % 4 < NUM_HUFF_TBLS := Nat.mod_lt _ (by decide)

/-- The number of symbols of a table whose sixteen counts come first. -/
def symbols (r : List UInt8) : ℕ := ((r.take 16).map UInt8.toNat).sum

def symbolsRead (r : List UInt8) : ℕ := min (symbols r) (r.length - 16)

/-- The condition on a Huffman table: its arrays are there as far as they are written, and
a DC table has no more symbols than a default one. -/
def HuffTableSafe (s : State) : Prop :=
  ∀ c r, s.bytes = c :: r →
    (s.huffTbl (isAc c) (c.toNat % 4) (index_lt c)).bits ≠ none ∧
    (16 ≤ r.length → symbols r ≤ 256 → 0 < symbolsRead r →
      (s.huffTbl (isAc c) (c.toNat % 4) (index_lt c)).huffval ≠ none ∧
      (isAc c = false → symbolsRead r ≤ 12))

theorem wp_readTable_iff {ac : Bool} {index : ℕ} (h : index < NUM_HUFF_TBLS) {s : State}
    (hbits : (s.huffTbl ac index h).bits ≠ none) :
    wp NoFault (readTable ac index) (fun _ _ => True) s ↔
      (16 ≤ s.bytes.length → symbols s.bytes ≤ 256 → 0 < symbolsRead s.bytes →
        (s.huffTbl ac index h).huffval ≠ none ∧ (ac = false → symbolsRead s.bytes ≤ 12)) := by
  rw [readTable, wp_bind]
  by_cases hlong : 16 ≤ s.bytes.length
  · have hread₁₆ : wp (fun _ => False) (readBits ac index 16 1 0) _ s :=
      wp_readBits h (Nat.le_refl 17) hbits hlong
    obtain ⟨count, t, ht, hcount, hbytes, hvals⟩ := exists_yields_of_wp hread₁₆
    rw [Nat.zero_add] at hcount
    have hread : min count t.bytes.length = symbolsRead s.bytes := by
      rw [hcount, hbytes, List.length_drop]
      rfl
    have hlimit : symbolsRead s.bytes ≤ symbols s.bytes := Nat.min_le_left _ _
    have hvals' : (t.huffTbl ac index h).huffval ≠ none ↔
        (s.huffTbl ac index h).huffval ≠ none := not_congr hvals
    rw [wp_of_yields ht, wp_bind, wp_check]
    simp only [noFault_failed, implies_true, and_true, wp_bind, hlong, forall_const]
    change (count ≤ 256 → wp NoFault (each (readHuffval ac index) count 0) (fun _ _ => True) t) ↔ _
    rw [wp_readHuffval_iff h (Nat.zero_le _), hread, hvals', length_defaultHuffval, hcount,
      Nat.zero_add]
    refine forall_congr' fun hsmall => forall_congr' fun _ => and_congr_right fun _ => ?_
    cases ac with
    | false => simp
    | true =>
        simp only [if_true, reduceCtorEq, false_imp_iff, iff_true]
        exact Nat.le_trans hlimit hsmall
  · simp only [hlong, false_imp_iff, iff_true]
    refine wp_mono (wp_readBits_failed h (Nat.le_refl 17) hbits (by omega) fun _ _ => False) ?_
      fun _ _ hfalse => hfalse.elim
    rintro e rfl
    exact noFault_failed

theorem wp_huffTable_iff (s : State) :
    wp NoFault huffTable (fun _ _ => True) s ↔ HuffTableSafe s := by
  rw [huffTable, wp_bind, wp_getChar]
  -- the first count is written before any other is read
  have hstep : ∀ c, wp NoFault (setBits (isAc c) (c.toNat % 4) 0 0 >>= fun _ =>
        readTable (isAc c) (c.toNat % 4)) (fun _ _ => True) s.next ↔
      (s.huffTbl (isAc c) (c.toNat % 4) (index_lt c)).bits ≠ none ∧
      (16 ≤ s.next.bytes.length → symbols s.next.bytes ≤ 256 → 0 < symbolsRead s.next.bytes →
        (s.huffTbl (isAc c) (c.toNat % 4) (index_lt c)).huffval ≠ none ∧
        (isAc c = false → symbolsRead s.next.bytes ≤ 12)) := by
    intro c
    rw [wp_bind, wp_setBits (index_lt c)]
    change ((s.huffTbl (isAc c) (c.toNat % 4) (index_lt c)).bits = none → _) ∧ (∀ bits,
      (s.huffTbl (isAc c) (c.toNat % 4) (index_lt c)).bits = some bits → _) ↔ _
    cases hbits : (s.huffTbl (isAc c) (c.toNat % 4) (index_lt c)).bits with
    | none => simp
    | some bits =>
        have hfirst : 0 < MAX_BITS_SIZE + 1 := Nat.succ_pos _
        have htable := wp_readTable_iff (index_lt c) (s := s.next.setHuffTbl (isAc c) (c.toNat % 4)
          { s.next.huffTbl (isAc c) (c.toNat % 4) (index_lt c) with
            bits := some (bits.set 0 0 hfirst) } (index_lt c)) (by rw [huffTbl_setHuffTbl]; nofun)
        rw [bytes_setHuffTbl, huffTbl_setHuffTbl] at htable
        constructor
        · rintro ⟨-, hw⟩
          exact ⟨nofun, htable.mp ((hw bits rfl).2 hfirst)⟩
        · rintro ⟨-, hsafe⟩
          refine ⟨nofun, fun bits' hbits' => ⟨nofun, fun _ => ?_⟩⟩
          cases hbits'
          exact htable.mpr hsafe
  constructor
  · rintro ⟨-, hw⟩ c r hbytes
    have hnext : s.next.bytes = r := bytes_next hbytes
    have hsafe := (hstep c).mp (hw c (by rw [hnext, hbytes]))
    rwa [hnext] at hsafe
  · intro h
    exact ⟨fun _ => noFault_failed, fun c hc => (hstep c).mpr (h c s.next.bytes hc)⟩

theorem wp_allocHuffTbls (s : State) : wp NoFault allocHuffTbls (fun _ _ => True) s := by
  have hupdate : ∀ ac i tbl (t : State), i < NUM_HUFF_TBLS →
      wp NoFault (updateHuffTbl ac i fun _ => pure tbl) (fun _ _ => True) t := by
    intro ac i tbl t hi
    rw [wp_updateHuffTbl hi, wp_pure]
    trivial
  have hpair : ∀ i tbl tbl' (t : State), i < NUM_HUFF_TBLS →
      wp NoFault (updateHuffTbl false i (fun _ => pure tbl) >>= fun _ =>
        updateHuffTbl true i fun _ => pure tbl') (fun _ _ => True) t := by
    intro i tbl tbl' t hi
    rw [wp_bind]
    exact wp_mono (hupdate false i tbl t hi) (fun _ he => he) fun _ u _ =>
      hupdate true i tbl' u hi
  have halloc : ∀ {α : Type} (memSize : ℕ) (x : α) (f : Option α → M Unit) (t : State),
      (∀ p u, wp NoFault (f p) (fun _ _ => True) u) →
        wp NoFault (extraMemAlloc memSize x >>= f) (fun _ _ => True) t := by
    intro α memSize x f t hf
    rw [wp_bind, wp_extraMemAlloc]
    refine ⟨fun _ => hf _ _, fun _ => ?_⟩
    split_ifs
    · exact noFault_aborted
    · exact hf _ _
  rw [allocHuffTbls, wp_bind, wp_get, wp_ite]
  refine ⟨fun _ => ?_, fun _ => trivial⟩
  rw [wp_bind]
  refine wp_mono (wp_each (I := fun _ => True) (n := NUM_HUFF_TBLS) (fun i t hi _ => ?_)
    (Nat.le_refl _) trivial) (fun _ he => he) fun _ _ _ => trivial
  exact halloc _ _ _ _ fun _ _ => halloc _ _ _ _ fun _ _ => halloc _ _ _ _ fun _ _ =>
    halloc _ _ _ _ fun _ _ => hpair i _ _ _ hi

theorem huffTurn_lt {x y : ℕ × State} (h : Turn huffTurn x y) : y.1 < x.1 := by
  have hw : wp (fun _ => True) (huffTurn x.1) (fun a _ => ∀ n, a = .inl n → n < x.1) x.2 := by
    rw [huffTurn, wp_ite]
    refine ⟨fun _ => nofun, fun hx => ?_⟩
    rw [wp_bind]
    refine wp_mono (wp_true huffTable x.2) (fun _ he => he) fun count t _ => ?_
    rw [wp_bind, wp_check, wp_pure]
    refine ⟨fun hle n hn => ?_, fun _ => trivial⟩
    cases hn
    omega
  exact (wp_of_yields h).mp hw y.1 rfl

/-- The condition on a DHT: each of the tables that the parser comes to meets its own. -/
def HuffSafe (s : State) : Prop :=
  ∀ t length u, Yields allocHuffTbls s () t → Yields getShortWord t length u → 2 ≤ length →
    ∀ x, Comes huffTurn (length - 2, u) x → x.1 ≠ 0 → HuffTableSafe x.2

theorem wp_huffTurn_iff (x : ℕ × State) :
    wp NoFault (huffTurn x.1) (Leaves fun _ _ => True) x.2 ↔ (x.1 ≠ 0 → HuffTableSafe x.2) := by
  rw [huffTurn, wp_ite]
  constructor
  · intro h hx
    rw [← wp_huffTable_iff]
    exact wp_mono ((wp_bind _ _).mp (h.2 hx)) (fun _ he => he) fun _ _ _ => trivial
  · refine fun h => ⟨fun _ => trivial, fun hx => ?_⟩
    rw [wp_bind]
    refine wp_mono ((wp_huffTable_iff x.2).mpr (h hx)) (fun _ he => he) fun count t _ => ?_
    rw [wp_bind, wp_check, wp_pure]
    exact ⟨fun _ => trivial, fun _ => noFault_failed⟩

theorem wp_getHuffTbl_iff (s : State) :
    wp NoFault getHuffTbl (fun _ _ => True) s ↔ HuffSafe s := by
  have hword : ∀ t : State, wp NoFault getShortWord (fun _ _ => True) t := fun t => by simp
  rw [getHuffTbl, wp_bind_of_wp (wp_allocHuffTbls s)]
  simp only [wp_bind_of_wp (hword _)]
  constructor
  · intro h t length u ht hu hlength
    have hloop := (wp_bind _ _).mp (h () t ht length u hu)
    rw [wp_check, wp_loop_iff (fun _ _ => huffTurn_lt) .failed (by omega)] at hloop
    exact fun x hx => (wp_huffTurn_iff x).mp (hloop.1 hlength x hx)
  · intro h _ t ht length u hu
    rw [wp_bind, wp_check, wp_loop_iff (fun _ _ => huffTurn_lt) .failed (by omega)]
    exact ⟨fun hlength x hx => (wp_huffTurn_iff x).mpr (h t length u ht hu hlength x hx),
      fun _ => noFault_failed⟩

/-! ## Quantization tables -/

/-- The pointer to the quantization table `n`. -/
def State.quant (s : State) (n : ℕ) (h : n < 3) : Option (Vector UInt8 64) := s.codec.quantTbl[n]

def State.setQuantTbl (s : State) (n : ℕ) (ptr : Option (Vector UInt8 64)) (h : n < 3) : State :=
  s.setCodec { s.codec with quantTbl := s.codec.quantTbl.set n ptr h }

@[simp] theorem quant_setQuantTbl (s : State) (n : ℕ) (ptr : Option (Vector UInt8 64))
    (h : n < 3) : (s.setQuantTbl n ptr h).quant n h = ptr :=
  Vector.getElem_set_self h

theorem same_quantEntry (prec : ℕ) : Keeps Same (quantEntry prec) :=
  keeps_ite same_getChar (same_bind same_getChar fun _ => same_getChar)

theorem same_quantTbl (quantTbl : Vector (Option (Vector UInt8 64)) 3) :
    Keeps Same (modify fun s => s.setCodec { s.codec with quantTbl } : M PUnit) :=
  same_modify (f := fun c => { c with quantTbl }) (fun _ => rfl) (fun _ => rfl) fun _ => rfl

theorem same_setQuant (n prec j : ℕ) : Keeps Same (setQuant n prec j) :=
  same_bind (same_quantEntry prec) fun _ => same_bind (keeps_get Same.refl) fun _ =>
    same_bind (same_fetch _ _) fun _ => same_bind (same_deref _) fun _ =>
      same_bind (same_fetch _ _) fun _ => same_bind (same_store _ _ _) fun _ =>
        same_bind (same_store _ _ _) fun _ => same_quantTbl _

theorem same_quantTable : Keeps Same quantTable :=
  same_bind same_getChar fun _ => same_bind (keeps_check Same.refl _ _) fun _ =>
    same_bind (same_extraMemAlloc _ _) fun _ => same_bind (keeps_get Same.refl) fun _ =>
      same_bind (same_store _ _ _) fun _ => same_bind (same_quantTbl _) fun _ =>
        same_bind (same_each (same_setQuant _ _) _ _) fun _ => keeps_pure Same.refl _

theorem same_quantTurn (t : ℕ × Bool) : Keeps Same (quantTurn t) :=
  keeps_ite (keeps_pure Same.refl _) (same_bind same_quantTable fun _ =>
    same_bind (keeps_check Same.refl _ _) fun _ => keeps_pure Same.refl _)

theorem same_compareQuant (j : ℕ) : Keeps Same (compareQuant j) :=
  same_bind (keeps_get Same.refl) fun _ => same_bind (same_fetch _ _) fun _ =>
    same_bind (same_fetch _ _) fun _ => same_bind (same_deref _) fun _ =>
      same_bind (same_deref _) fun _ => same_bind (same_fetch _ _) fun _ =>
        same_bind (same_fetch _ _) fun _ => keeps_check Same.refl _ _

theorem same_getQuantTbl : Keeps Same getQuantTbl :=
  same_bind (same_modify (f := fun c => { c with usingDefaultQuantTab := false })
    (fun _ => rfl) (fun _ => rfl) fun _ => rfl) fun _ =>
    same_bind same_getShortWord fun _ => same_bind (keeps_check Same.refl _ _) fun _ =>
      same_bind (keeps_loop Same.refl Same.trans same_quantTurn _ _ _) fun _ =>
        keeps_ite (same_each same_compareQuant _ _) (keeps_pure Same.refl _)

def entrySize (prec : ℕ) : ℕ := if prec = 0 then 1 else 2

theorem wp_quantEntry {prec : ℕ} {s : State} :
    wp NoFault (quantEntry prec) (fun _ t => t.codec = s.codec) s := by
  simp only [quantEntry, wp_ite, wp_bind, wp_getChar, noFault_failed, implies_true, true_and]
  exact ⟨fun _ _ _ => rfl, fun _ _ _ _ _ => rfl⟩

theorem wp_quantEntry_iff {prec : ℕ} {s : State} :
    wp NoFault (quantEntry prec) (fun _ _ => False) s ↔ s.bytes.length < entrySize prec := by
  simp only [quantEntry, wp_ite, wp_bind, wp_getChar, noFault_failed, implies_true, true_and,
    imp_false, entrySize]
  cases hbytes : s.bytes with
  | nil => split_ifs with hprec <;> simp [hprec]
  | cons b r =>
      have hnext : s.next.bytes = r := bytes_next hbytes
      rw [hnext]
      cases r with
      | nil => split_ifs with hprec <;> simp [hprec]
      | cons c r =>
          have hnext' : s.next.next.bytes = r := bytes_next hnext
          rw [hnext']
          split_ifs with hprec <;> simp [hprec]

theorem zigzag_lt {j k : ℕ} (h : zigzagOrder[j]? = some k) : k < 64 := by
  have hall : ∀ k ∈ zigzagOrder, k < 64 := by decide
  exact hall k (List.mem_of_getElem? h)

/-- The entries of a table that is there are written without a fault. -/
theorem wp_setQuant {n prec j : ℕ} (hn : n < 3) (hj : j < 64) {s : State}
    (h : s.quant n hn ≠ none) :
    wp NoFault (setQuant n prec j) (fun _ t => t.quant n hn ≠ none) s := by
  rw [setQuant, wp_bind]
  refine wp_mono wp_quantEntry (fun _ he => he) fun c t ht => ?_
  have hthere : t.codec.quantTbl.toList[n]? = some (s.quant n hn) := by
    rw [ht]
    simp [State.quant, hn]
  obtain ⟨quant, hquant⟩ := Option.ne_none_iff_exists'.mp h
  rw [wp_bind, wp_get, wp_bind, wp_fetch, hthere, hquant]
  refine ⟨nofun, fun ptr hptr => ?_⟩
  cases hptr
  rw [wp_bind, wp_deref]
  refine ⟨nofun, fun quant' _ => ?_⟩
  rw [wp_bind, wp_fetch]
  refine ⟨fun hnone => ?_, fun k hk => ?_⟩
  · rw [List.getElem?_eq_none_iff] at hnone
    exact absurd hnone (by simp [zigzagOrder]; omega)
  · rw [wp_bind, wp_store]
    refine ⟨fun hge => absurd (zigzag_lt hk) (Nat.not_lt.mpr hge), fun _ => ?_⟩
    rw [wp_bind, wp_store]
    refine ⟨fun hge => absurd hn (Nat.not_lt.mpr hge), fun _ => ?_⟩
    rw [wp_modify]
    change (t.setQuantTbl n _ hn).quant n hn ≠ none
    rw [quant_setQuantTbl]
    nofun

/-- The first entry of a table that is not there is a fault as soon as it has been read. -/
theorem wp_setQuant_none_iff {n prec j : ℕ} (hn : n < 3) {s : State} (h : s.quant n hn = none)
    (Q : Unit → State → Prop) :
    wp NoFault (setQuant n prec j) Q s ↔ s.bytes.length < entrySize prec := by
  rw [← wp_quantEntry_iff, setQuant, wp_bind]
  constructor
  · intro hw
    refine wp_mono (wp_and hw wp_quantEntry) (fun _ he => he.1) fun c t ht => ?_
    obtain ⟨hw', ht'⟩ := ht
    have hthere : t.codec.quantTbl.toList[n]? = some none := by
      rw [ht', ← h]
      simp [State.quant, hn]
    rw [wp_bind, wp_get, wp_bind, wp_fetch, hthere] at hw'
    have hderef := (wp_bind _ _).mp (hw'.2 none rfl)
    exact not_noFault_fault ((wp_deref.mp hderef).1 rfl)
  · exact fun hw => wp_mono hw (fun _ he => he) fun _ _ hfalse => hfalse.elim

/-- The condition on a quantization table: it is allocated, or the stream ends before its
first entry. -/
def QuantTableSafe (s : State) : Prop :=
  ∀ c r, s.bytes = c :: r → c.toNat % 16 ≤ 2 →
    s.pool.asserts = true ∨ s.pool.Fits 64 ∨ r.length < entrySize (c.toNat / 16)

theorem wp_setQuants_iff (prec : ℕ) {n : ℕ} (hn : n < 3) {s : State} :
    wp NoFault (each (setQuant n prec) 64 0 >>= fun _ => pure (n, prec)) (fun _ _ => True) s ↔
      s.quant n hn ≠ none ∨ s.bytes.length < entrySize prec := by
  rw [wp_bind]
  cases h : s.quant n hn with
  | none =>
      rw [each, wp_bind, wp_setQuant_none_iff hn h]
      simp
  | some quant =>
      simp only [ne_eq, reduceCtorEq, not_false_eq_true, true_or, iff_true]
      refine wp_mono (wp_each (I := fun t => t.quant n hn ≠ none) (n := 64) (fun j t hj ht =>
        wp_setQuant hn hj ht) (Nat.le_refl _) ?_) (fun _ he => he) fun _ _ _ => trivial
      rw [h]
      exact Option.some_ne_none quant

theorem wp_quantTable_iff (s : State) :
    wp NoFault quantTable (fun _ _ => True) s ↔ QuantTableSafe s := by
  -- what is left when the number of the table has been read
  have hstep : ∀ c : UInt8, c.toNat % 16 ≤ 2 →
      (wp NoFault (extraMemAlloc 64 (Vector.replicate 64 (0 : UInt8)) >>= fun ptr => do
        let s ← get
        let quantTbl ← store s.codec.quantTbl (c.toNat % 16) ptr
        modify fun s => s.setCodec { s.codec with quantTbl }
        each (setQuant (c.toNat % 16) (c.toNat / 16)) 64 0
        pure (c.toNat % 16, c.toNat / 16)) (fun _ _ => True) s.next ↔
      s.pool.asserts = true ∨ s.pool.Fits 64 ∨
        s.next.bytes.length < entrySize (c.toNat / 16)) := by
    intro c hc
    have hn : c.toNat % 16 < 3 := by omega
    have hput : ∀ (t : State) (ptr : Option (Vector UInt8 64)),
        wp NoFault (do
          let s ← get
          let quantTbl ← store s.codec.quantTbl (c.toNat % 16) ptr
          modify fun s => s.setCodec { s.codec with quantTbl }
          each (setQuant (c.toNat % 16) (c.toNat / 16)) 64 0
          pure (c.toNat % 16, c.toNat / 16)) (fun _ _ => True) t ↔
        ptr ≠ none ∨ t.bytes.length < entrySize (c.toNat / 16) := by
      intro t ptr
      rw [wp_bind, wp_get, wp_bind, wp_store]
      have hset := wp_setQuants_iff (c.toNat / 16) hn
        (s := t.setQuantTbl (c.toNat % 16) ptr hn)
      rw [quant_setQuantTbl] at hset
      constructor
      · exact fun hw => hset.mp (hw.2 hn)
      · exact fun hw => ⟨fun hge => absurd hn (Nat.not_lt.mpr hge), fun _ => hset.mpr hw⟩
    rw [wp_bind, wp_extraMemAlloc, hput, hput]
    change (s.pool.Fits 64 → _) ∧ (¬ s.pool.Fits 64 → if s.pool.asserts then _ else _) ↔ _
    cases hasserts : s.pool.asserts with
    | true => simp
    | false =>
        by_cases hfits : s.pool.Fits 64
        · simp [hfits]
        · simp only [hfits, ne_eq, not_true_eq_false, false_or, not_false_eq_true, false_imp_iff,
            true_and, forall_const, Bool.false_eq_true, if_false]
          exact Iff.rfl
  rw [quantTable, wp_bind, wp_getChar]
  constructor
  · rintro ⟨-, hw⟩ c r hbytes hc
    have hnext : s.next.bytes = r := bytes_next hbytes
    have hafter := (wp_check _ _).mp ((wp_bind _ _).mp (hw c (by rw [hnext, hbytes])))
    have hsafe := (hstep c hc).mp (hafter.1 hc)
    rwa [hnext] at hsafe
  · refine fun h => ⟨fun _ => noFault_failed, fun c hc => ?_⟩
    rw [wp_bind, wp_check]
    exact ⟨fun hsmall => (hstep c hsmall).mpr (h c s.next.bytes hc hsmall),
      fun _ => noFault_failed⟩

theorem quantTurn_lt {x y : (ℕ × Bool) × State} (h : Turn quantTurn x y) : y.1.1 < x.1.1 := by
  have hw : wp (fun _ => True) (quantTurn x.1) (fun a _ => ∀ t, a = .inl t → t.1 < x.1.1) x.2 := by
    rw [quantTurn, wp_ite]
    refine ⟨fun _ => nofun, fun hx => ?_⟩
    rw [wp_bind]
    refine wp_mono (wp_true quantTable x.2) (fun _ he => he) fun p t _ => ?_
    rw [wp_bind, wp_check, wp_pure]
    refine ⟨fun hle u hu => ?_, fun _ => trivial⟩
    cases hu
    simp only
    omega
  exact (wp_of_yields h).mp hw y.1 rfl

/-- The two chroma tables are there. -/
def ChromaSafe (s : State) : Prop := s.quant 1 (by decide) ≠ none ∧ s.quant 2 (by decide) ≠ none

theorem wp_compareQuants_iff (s : State) :
    wp NoFault (each compareQuant 64 0) (fun _ _ => True) s ↔ ChromaSafe s := by
  have hget : ∀ (n : ℕ) (hn : n < 3), s.codec.quantTbl.toList[n]? = some (s.quant n hn) := by
    intro n hn
    simp [State.quant, hn]
  constructor
  · intro h
    rw [each, wp_bind, compareQuant, wp_bind, wp_get, wp_bind, wp_fetch, hget 1 (by decide)] at h
    have hv := (wp_bind _ _).mp (h.2 _ rfl)
    rw [wp_fetch, hget 2 (by decide)] at hv
    have hu := (wp_bind _ _).mp (hv.2 _ rfl)
    rw [wp_deref] at hu
    refine ⟨fun hnone => not_noFault_fault (hu.1 hnone), fun hnone => ?_⟩
    cases huTbl : s.quant 1 (by decide) with
    | none => exact not_noFault_fault (hu.1 huTbl)
    | some uTbl =>
        have hderef := (wp_bind _ _).mp (hu.2 uTbl huTbl)
        exact not_noFault_fault ((wp_deref.mp hderef).1 hnone)
  · rintro ⟨hu, hv⟩
    obtain ⟨uTbl, huTbl⟩ := Option.ne_none_iff_exists'.mp hu
    obtain ⟨vTbl, hvTbl⟩ := Option.ne_none_iff_exists'.mp hv
    refine wp_mono (wp_each (I := fun t => t = s) (n := 64) (fun j t hj ht => ?_) (Nat.le_refl _)
      rfl) (fun _ he => he) fun _ _ _ => trivial
    subst ht
    rw [State.quant] at huTbl hvTbl
    simp [compareQuant, huTbl, hvTbl, hj]

/-- The condition on a DQT: each of the tables that the parser comes to meets its own, and
when a second chroma table has been read the first one is there. -/
def QuantSafe (s : State) : Prop :=
  ∀ length u, Yields getShortWord (s.setCodec { s.codec with usingDefaultQuantTab := false })
      length u → 2 ≤ length →
    ∀ x, Comes quantTurn ((length - 2, false), u) x →
      (x.1.1 ≠ 0 → QuantTableSafe x.2) ∧ (x.1.1 = 0 → x.1.2 = true → ChromaSafe x.2)

theorem wp_quantTurn_iff (x : (ℕ × Bool) × State) :
    wp NoFault (quantTurn x.1) (Leaves fun two =>
      wp NoFault (if two = true then each compareQuant 64 0 else pure ()) fun _ _ => True) x.2 ↔
      (x.1.1 ≠ 0 → QuantTableSafe x.2) ∧ (x.1.1 = 0 → x.1.2 = true → ChromaSafe x.2) := by
  rw [quantTurn, wp_ite, wp_pure, and_comm]
  refine and_congr ?_ ?_
  · refine forall_congr' fun hx => ?_
    rw [wp_bind]
    constructor
    · intro h
      rw [← wp_quantTable_iff]
      exact wp_mono h (fun _ he => he) fun _ _ _ => trivial
    · intro h
      refine wp_mono ((wp_quantTable_iff x.2).mpr h) (fun _ he => he) fun p t _ => ?_
      rw [wp_bind, wp_check, wp_pure]
      exact ⟨fun _ => trivial, fun _ => noFault_failed⟩
  · refine forall_congr' fun _ => ?_
    rw [Leaves, wp_ite, wp_compareQuants_iff]
    exact and_iff_left fun _ => trivial

theorem wp_getQuantTbl_iff (s : State) :
    wp NoFault getQuantTbl (fun _ _ => True) s ↔ QuantSafe s := by
  have hword : ∀ t : State, wp NoFault getShortWord (fun _ _ => True) t := fun t => by simp
  rw [getQuantTbl, wp_bind, wp_modify, wp_bind_of_wp (hword _)]
  constructor
  · intro h length u hu hlength
    have hloop := (wp_bind _ _).mp (h length u hu)
    rw [wp_check, wp_bind, wp_loop_iff (fun _ _ => quantTurn_lt) .failed (by simp only; omega)]
      at hloop
    exact fun x hx => (wp_quantTurn_iff x).mp (hloop.1 hlength x hx)
  · intro h length u hu
    rw [wp_bind, wp_check, wp_bind,
      wp_loop_iff (fun _ _ => quantTurn_lt) .failed (by simp only; omega)]
    exact ⟨fun hlength x hx => (wp_quantTurn_iff x).mpr (h length u hu hlength x hx),
      fun _ => noFault_failed⟩

end JpegParse

end Tarako
