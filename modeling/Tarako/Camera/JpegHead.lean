import Tarako.Camera.JpegTables

/-!
# The parser inside its arrays

`parseHead_inBounds_iff`: for every stream, however the read callback cuts it, `ParseHead` accesses
only elements that exist, and leaves a scan that the decoder can use when it succeeds,
exactly if each segment that it comes to meets its condition.
-/

namespace Tarako

namespace JpegParse

open Prog

/-- The parse accesses only elements that exist, and what it succeeds with is good. -/
structure InBounds (s : State) : Prop where
  access : parseHead s ≠ .error .fault
  success : ∀ s', parseHead s = .ok ((), s') → Good s'

theorem inBounds_iff_wp (s : State) : InBounds s ↔ wp NoFault parseHead (fun _ => Good) s := by
  rw [wp_iff]
  constructor
  · rintro ⟨haccess, hsuccess⟩
    refine ⟨fun e he => ?_, fun _ s' hs' => hsuccess s' hs'⟩
    rintro rfl
    exact haccess he
  · rintro ⟨hstop, hyield⟩
    exact ⟨fun hfault => not_noFault_fault (hstop _ hfault), fun s' hs' => hyield () s' hs'⟩

/-! ## Markers -/

theorem wp_streamLoop_iff {τ ρ : Type} {body : τ → M (τ ⊕ ρ)}
    (hlt : ∀ x y, Turn body x y → y.2.bytes.length < x.2.bytes.length) {E : Stop → Prop}
    {Q : ρ → State → Prop} (t : τ) (s : State) :
    wp E (loop body .failed (s.bytes.length + 1) t) Q s ↔
      ∀ x, Comes body (t, s) x → wp E (body x.1) (Leaves Q) x.2 :=
  wp_loop_iff (w := fun x : τ × State => x.2.bytes.length) hlt Stop.failed
    (Nat.lt_add_one s.bytes.length)

theorem wp_markerTurn {E : Stop → Prop} (hE : E .failed) (ff : Bool) (s : State) :
    wp E (markerTurn ff) (fun _ t => t.bytes.length < s.bytes.length ∧ Same s t) s := by
  rw [markerTurn, wp_bind, wp_getChar]
  refine ⟨fun _ => hE, fun c hc => ?_⟩
  have hlt : s.next.bytes.length < s.bytes.length ∧ Same s s.next := by
    refine ⟨?_, same_next hc⟩
    rw [hc, List.length_cons]
    exact Nat.lt_succ_self _
  simp only [wp_ite, wp_pure]
  exact ⟨fun _ => hlt, fun _ => ⟨fun _ => hlt, fun _ => hlt⟩⟩

theorem markerTurn_lt {x y : Bool × State} (h : Turn markerTurn x y) :
    y.2.bytes.length < x.2.bytes.length :=
  ((wp_of_yields h).mp (wp_markerTurn (E := fun _ => True) trivial x.1 x.2)).1

theorem same_markerTurn (ff : Bool) : Keeps Same (markerTurn ff) :=
  keeps_iff_wp.mpr fun s => wp_mono (wp_markerTurn (E := fun _ => True) trivial ff s)
    (fun _ he => he) fun _ _ ht => ht.2

/-- A marker is read: the stream gets shorter and nothing else changes. -/
theorem wp_getNextMarker {E : Stop → Prop} (hE : E .failed) (s : State) :
    wp E getNextMarker (fun _ t => t.bytes.length < s.bytes.length ∧ Same s t) s := by
  rw [getNextMarker, wp_bind, wp_get, wp_streamLoop_iff fun _ _ => markerTurn_lt]
  intro x hx
  have hsame : Same s x.2 := Comes.of_keeps Same.refl Same.trans same_markerTurn hx
  refine wp_mono (wp_markerTurn hE x.1 x.2) (fun _ he => he) fun a t ht => ?_
  cases a with
  | inl ff => trivial
  | inr c => exact ⟨Nat.lt_of_lt_of_le ht.1 hsame.bytes, hsame.trans _ _ _ ht.2⟩

/-! ## The first marker -/

theorem wp_soiTurn {E : Stop → Prop} (hE : E .failed) (s : State) :
    wp E (soiTurn ()) (fun _ t => t.bytes.length < s.bytes.length ∧ Same s t) s := by
  rw [soiTurn, wp_bind]
  refine wp_mono (wp_getNextMarker hE s) (fun _ he => he) fun c t ht => ?_
  simp only [wp_bind, wp_check, wp_ite, wp_pure]
  exact ⟨fun _ => ⟨fun _ => ht, fun _ => ht⟩, fun _ => hE⟩

theorem soiTurn_lt {x y : Unit × State} (h : Turn soiTurn x y) :
    y.2.bytes.length < x.2.bytes.length :=
  ((wp_of_yields h).mp (wp_soiTurn (E := fun _ => True) trivial x.2)).1

theorem wp_findSOI {E : Stop → Prop} (hE : E .failed) (s : State) :
    wp E findSOI (fun _ => Same s) s := by
  rw [findSOI, wp_bind, wp_get, wp_streamLoop_iff fun _ _ => soiTurn_lt]
  intro x hx
  have hkeeps : ∀ u, Keeps Same (soiTurn u) := fun _ => keeps_iff_wp.mpr fun t =>
    wp_mono (wp_soiTurn (E := fun _ => True) trivial t) (fun _ he => he) fun _ _ ht => ht.2
  have hsame : Same s x.2 := Comes.of_keeps Same.refl Same.trans hkeeps hx
  refine wp_mono (wp_soiTurn hE x.2) (fun _ he => he) fun a t ht => ?_
  cases a with
  | inl u => trivial
  | inr u => exact hsame.trans _ _ _ ht.2

/-! ## The segments -/

/-- The stream is no longer than before. -/
def Shrinks (s t : State) : Prop := t.bytes.length ≤ s.bytes.length

theorem shrinks_of_same {α : Type} {m : M α} (h : Keeps Same m) : Keeps Shrinks m :=
  fun s a t ht => (h s a t ht).bytes

theorem shrinks_bind {α β : Type} {m : M α} {f : α → M β} (hm : Keeps Shrinks m)
    (hf : ∀ a, Keeps Shrinks (f a)) : Keeps Shrinks (m >>= f) :=
  keeps_bind (R := Shrinks) (fun _ _ _ h h' => Nat.le_trans h' h) hm hf

theorem shrinks_pure {α : Type} (a : α) : Keeps Shrinks (pure a : M α) :=
  shrinks_of_same (keeps_pure Same.refl a)

theorem shrinks_get : Keeps Shrinks (get : M State) := shrinks_of_same (keeps_get Same.refl)

theorem shrinks_check (e : Stop) (p : Prop) [Decidable p] : Keeps Shrinks (check e p : M Unit) :=
  shrinks_of_same (keeps_check Same.refl e p)

theorem shrinks_modify {f : State → State} (h : ∀ s, (f s).bytes = s.bytes) :
    Keeps Shrinks (modify f : M PUnit) :=
  keeps_modify fun s => Nat.le_of_eq (congrArg List.length (h s))

theorem shrinks_updateComp (ci : ℕ) (f : Component → Component) :
    Keeps Shrinks (updateComp ci f) :=
  shrinks_bind shrinks_get fun _ => shrinks_bind (shrinks_of_same (same_deref _)) fun _ =>
    shrinks_bind (shrinks_of_same (same_fetch _ _)) fun _ => shrinks_modify fun _ => rfl

theorem shrinks_updateTblMap (i : ℕ) (f : TblMap → TblMap) : Keeps Shrinks (updateTblMap i f) :=
  shrinks_bind shrinks_get fun _ => shrinks_bind (shrinks_of_same (same_fetch _ _)) fun _ =>
    shrinks_bind (shrinks_of_same (same_store _ _ _)) fun _ => shrinks_modify fun _ => rfl

theorem shrinks_fetchComp (ci : ℕ) : Keeps Shrinks (fetchComp ci) :=
  shrinks_bind shrinks_get fun _ => shrinks_bind (shrinks_of_same (same_deref _)) fun _ =>
    shrinks_of_same (same_fetch _ _)

theorem shrinks_getChar : Keeps Shrinks getChar := shrinks_of_same same_getChar

theorem shrinks_getShortWord : Keeps Shrinks getShortWord := shrinks_of_same same_getShortWord

theorem shrinks_sofComponent (ci : ℕ) : Keeps Shrinks (sofComponent ci) :=
  shrinks_bind shrinks_getChar fun _ => shrinks_bind (shrinks_updateComp _ _) fun _ =>
    shrinks_bind (shrinks_check _ _) fun _ => shrinks_bind shrinks_getChar fun _ =>
      shrinks_bind (shrinks_updateComp _ _) fun _ => shrinks_bind shrinks_getChar fun _ =>
        shrinks_bind (shrinks_check _ _) fun _ => shrinks_updateTblMap _ _

theorem shrinks_sofFormat (n : ℕ) : Keeps Shrinks (sofFormat n) := by
  refine shrinks_bind (shrinks_fetchComp 0) fun comp => keeps_ite (shrinks_modify fun _ => rfl) ?_
  cases mcuInfoOf (sampling comp) with
  | none => exact keeps_throw _
  | some info =>
      exact shrinks_bind (shrinks_modify fun _ => rfl) fun _ =>
        shrinks_bind (shrinks_fetchComp 1) fun _ => shrinks_bind (shrinks_check _ _) fun _ =>
          keeps_ite (shrinks_bind (shrinks_fetchComp 2) fun _ => shrinks_check _ _)
            (shrinks_pure _)

theorem shrinks_getSOF (isProgressive : Bool) : Keeps Shrinks (getSOF isProgressive) := by
  have hcomponents : ∀ n, Keeps Shrinks (sofComponents n) := fun n =>
    shrinks_bind (shrinks_of_same (same_extraMemAlloc _ _)) fun _ =>
      shrinks_bind (shrinks_modify fun _ => rfl) fun _ =>
        shrinks_bind (keeps_each (R := Shrinks) (fun _ => Nat.le_refl _)
          (fun _ _ _ h h' => Nat.le_trans h' h) shrinks_sofComponent _ _) fun _ =>
            shrinks_sofFormat n
  exact shrinks_bind (shrinks_modify fun _ => rfl) fun _ => shrinks_bind shrinks_getShortWord
    fun _ => shrinks_bind (shrinks_check _ _) fun _ => shrinks_bind shrinks_getChar fun _ =>
      shrinks_bind (shrinks_check _ _) fun _ => shrinks_bind shrinks_getShortWord fun _ =>
        shrinks_bind shrinks_getShortWord fun _ => shrinks_bind (shrinks_modify fun _ => rfl)
          fun _ => shrinks_bind shrinks_getChar fun _ => shrinks_bind (shrinks_check _ _)
            fun _ => hcomponents _

/-- What a segment leaves: a stream that is no longer, and a codec as before a segment. -/
def Passes (s t : State) : Prop := Shrinks s t ∧ (Wf s → Wf t)

theorem passes_of_same {α : Type} {m : M α} (h : Keeps Same m) : Keeps Passes m :=
  fun s a t ht => ⟨(h s a t ht).bytes, (h s a t ht).wf⟩

theorem passes_getSOF (isProgressive : Bool) : Keeps Passes (getSOF isProgressive) := by
  refine fun s a t ht => ⟨shrinks_getSOF isProgressive s a t ht, fun hwf => ?_⟩
  have hyields : wp NoFault (getSOF isProgressive) (fun _ _ => True) s :=
    (wp_of_yields ht).mpr trivial
  exact (wp_of_yields ht).mp ((sofSafe_of_wp hyields).wp_getSOF hwf isProgressive)

/-- The condition on a segment, in the state before its marker. -/
def SegmentSafe (s : State) : Prop :=
  ∀ c t, Yields getNextMarker s c t →
    match segmentOf c with
    | .sof _ => SofSafe t
    | .dht => HuffSafe t
    | .dqt => QuantSafe t
    | .leave => c = M_SOS → SosSafe t
    | _ => True

theorem wp_tablesTurn (E : Stop → Prop) (hE : ∀ e, E e) (s : State) :
    wp E (tablesTurn ()) (fun _ t => t.bytes.length < s.bytes.length ∧ (Wf s → Wf t)) s := by
  have hsegment : ∀ {m : M Unit} {t : State}, Keeps Passes m →
      (t.bytes.length < s.bytes.length ∧ Same s t) →
        wp E (m >>= fun _ => pure (.inl () : Unit ⊕ UInt8))
          (fun _ u => u.bytes.length < s.bytes.length ∧ (Wf s → Wf u)) t := by
    intro m t hm ht
    rw [wp_bind]
    refine wp_mono (keeps_iff_wp.mp hm t) (fun e _ => hE e) fun _ u hu => ?_
    exact ⟨Nat.lt_of_le_of_lt hu.1 ht.1, fun hwf => hu.2 (ht.2.wf hwf)⟩
  rw [tablesTurn, wp_bind]
  refine wp_mono (wp_getNextMarker (hE _) s) (fun _ he => he) fun c t ht => ?_
  cases segmentOf c with
  | sof isProgressive => exact hsegment (passes_getSOF isProgressive) ht
  | leave => exact ⟨ht.1, ht.2.wf⟩
  | dht => exact hsegment (passes_of_same same_getHuffTbl) ht
  | dqt => exact hsegment (passes_of_same same_getQuantTbl) ht
  | app0 => exact hsegment (passes_of_same same_getAPP0) ht
  | dri => exact hsegment (passes_of_same same_getDRI) ht
  | unexpected => exact hE _
  | skipped => exact hsegment (passes_of_same same_skipVariable) ht

theorem tablesTurn_lt {x y : Unit × State} (h : Turn tablesTurn x y) :
    y.2.bytes.length < x.2.bytes.length :=
  ((wp_of_yields h).mp (wp_tablesTurn (fun _ => True) (fun _ => trivial) x.2)).1

theorem wf_of_comes {x y : Unit × State} (h : Comes tablesTurn x y) (hwf : Wf x.2) : Wf y.2 := by
  induction h with
  | refl => exact hwf
  | tail _ hturn ih =>
      exact ((wp_of_yields hturn).mp
        (wp_tablesTurn (fun _ => True) (fun _ => trivial) _)).2 ih

/-- What `ParseHead` does with the marker that ends `ProcessTables`. -/
def afterTables (c : UInt8) : M Unit := if c = M_SOS then getSOS else throw .failed

theorem wp_afterTables_iff {s : State} (hwf : Wf s) (c : UInt8) :
    wp NoFault (afterTables c) (fun _ => Good) s ↔ (c = M_SOS → SosSafe s) := by
  rw [afterTables, wp_ite, wp_getSOS_iff hwf]
  exact and_iff_left fun _ => noFault_failed

/-- A segment is handled without a fault, with what follows when it is the last one,
exactly if it meets its condition. -/
theorem wp_tablesTurn_iff {s : State} (hwf : Wf s) :
    wp NoFault (tablesTurn ()) (Leaves fun c => wp NoFault (afterTables c) fun _ => Good) s ↔
      SegmentSafe s := by
  have hmarker := wp_getNextMarker noFault_failed s
  have hgoes : ∀ {m : M Unit} {t : State},
      wp NoFault (m >>= fun _ => pure (.inl () : Unit ⊕ UInt8))
          (Leaves fun c => wp NoFault (afterTables c) fun _ => Good) t ↔
        wp NoFault m (fun _ _ => True) t := by
    intro m t
    rw [wp_bind]
    exact Iff.rfl
  rw [tablesTurn, wp_bind_of_wp (wp_mono hmarker (fun _ he => he) fun _ _ _ => trivial)]
  refine forall_congr' fun c => forall_congr' fun t => forall_congr' fun ht => ?_
  have hsame : Same s t := ((wp_of_yields ht).mp hmarker).2
  have hwft : Wf t := hsame.wf hwf
  cases segmentOf c with
  | sof isProgressive =>
      refine hgoes.trans ⟨sofSafe_of_wp, fun hsafe => ?_⟩
      exact wp_mono (hsafe.wp_getSOF hwft isProgressive) (fun _ he => he) fun _ _ _ => trivial
  | leave => exact wp_afterTables_iff hwft c
  | dht => exact hgoes.trans (wp_getHuffTbl_iff t)
  | dqt => exact hgoes.trans (wp_getQuantTbl_iff t)
  | app0 => exact hgoes.trans (iff_of_true (wp_getAPP0 t) trivial)
  | dri => exact hgoes.trans (iff_of_true (wp_getDRI t) trivial)
  | unexpected => exact iff_of_true noFault_failed trivial
  | skipped => exact hgoes.trans (iff_of_true (wp_skipVariable t) trivial)

/-! ## The whole parse -/

theorem wf_start (stream : Stream) (poolSize : ℕ) (asserts : Bool) :
    Wf (start stream poolSize asserts) := by
  refine ⟨rfl, fun i hi => ?_⟩
  have hentry : (start stream poolSize asserts).codec.tblMap[i] = ⟨0, 0, 0⟩ :=
    Vector.getElem_replicate hi
  rw [hentry]
  exact ⟨rfl, rfl⟩

/-- The state before a marker of `ProcessTables`. -/
def AtMarker (s t : State) : Prop :=
  ∃ u, Yields findSOI s () u ∧ Comes tablesTurn ((), u) ((), t)

/-- The parse stays inside its arrays, and leaves a scan that the decoder can use, exactly
if each segment that it comes to meets its condition. -/
theorem parseHead_inBounds_iff (stream : Stream) (poolSize : ℕ) (asserts : Bool) :
    InBounds (start stream poolSize asserts) ↔
      ∀ t, AtMarker (start stream poolSize asserts) t → SegmentSafe t := by
  have hsoi := wp_findSOI noFault_failed (start stream poolSize asserts)
  have hturns : ∀ u, Yields findSOI (start stream poolSize asserts) () u →
      (wp NoFault (processTables >>= afterTables) (fun _ => Good) u ↔
        ∀ t, Comes tablesTurn ((), u) ((), t) → SegmentSafe t) := by
    intro u hu
    have hsame : Same (start stream poolSize asserts) u := (wp_of_yields hu).mp hsoi
    have hwf : Wf u := hsame.wf (wf_start stream poolSize asserts)
    rw [wp_bind, processTables, wp_bind, wp_get, wp_streamLoop_iff fun _ _ => tablesTurn_lt]
    constructor
    · exact fun h t ht => (wp_tablesTurn_iff (wf_of_comes ht hwf)).mp (h ((), t) ht)
    · exact fun h x hx => (wp_tablesTurn_iff (wf_of_comes hx hwf)).mpr (h x.2 hx)
  have hparse : parseHead = findSOI >>= fun _ => processTables >>= afterTables := rfl
  rw [inBounds_iff_wp, hparse,
    wp_bind_of_wp (wp_mono hsoi (fun _ he => he) fun _ _ _ => trivial)]
  constructor
  · rintro h t ⟨u, hu, ht⟩
    exact (hturns u hu).mp (h () u hu) t ht
  · exact fun h _ u hu => (hturns u hu).mpr fun t ht => h t ⟨u, hu, ht⟩

def fourComponents : State :=
  start ⟨[0xff, 0xd8, 0xff, 0xda, 0, 14, 4, 1, 0, 2, 0, 3, 0, 4, 0], false, []⟩ 20000 false

def tableFifteen : State :=
  start ⟨[0xff, 0xd8, 0xff, 0xc0, 0, 11, 8, 0, 16, 0, 16, 1, 1, 0x11, 0,
    0xff, 0xda, 0, 8, 1, 1, 0xf0, 0, 63, 0], false, []⟩ 20000 false

theorem parseHead_outside : ¬ InBounds fourComponents ∧ ¬ InBounds tableFifteen := by
  have hoff : ∀ s, InBounds s → wp NoFault parseHead (fun _ _ => True) s :=
    fun s h => wp_mono ((inBounds_iff_wp s).mp h) (fun _ he => he) fun _ _ _ => trivial
  have htables : ∀ s, InBounds s →
      wp NoFault parseHead (fun _ t => t.codec.tblMap[0].dcHuffTblId < NUM_HUFF_TBLS) s :=
    fun s h => wp_mono ((inBounds_iff_wp s).mp h) (fun _ he => he) fun _ _ ht =>
      (ht.tables 0 (by decide)).1
  constructor
  · refine mt (hoff fourComponents) ?_
    decide +kernel
  · refine mt (htables tableFifteen) ?_
    decide +kernel

end JpegParse

end Tarako
