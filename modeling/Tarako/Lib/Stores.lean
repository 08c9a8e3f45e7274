import Mathlib.Logic.Function.Basic
import Tarako.Lib.Memory

/-!
# Byte stores

A program that only stores into a buffer is described by its stores in order, each with
the key of the part it is for. `image` is what the stores leave of a memory, `Within` says
where they go, and `Separate` that none of them goes where one before it went, other than
again for the same part, where that may be written again.
-/

/-- A byte that is stored, and the part it is stored for. -/
structure Store (κ : Type) where
  key : κ
  addr : ℕ
  byte : UInt8
  deriving DecidableEq

namespace Store

variable {κ : Type} {again : κ → Prop} {l r : List (Store κ)} {m : Memory} {lo hi a : ℕ}

/-- Bytes stored one behind the other. -/
def block (key : κ) : ℕ → List UInt8 → List (Store κ)
  | _, [] => []
  | a, b :: bytes => ⟨key, a, b⟩ :: block key (a + 1) bytes

/-- The memory behind the stores. -/
def image (l : List (Store κ)) (m : Memory) : Memory :=
  l.foldl (fun m w => Function.update m w.addr w.byte) m

def Within (lo hi : ℕ) (l : List (Store κ)) : Prop := ∀ w ∈ l, lo ≤ w.addr ∧ w.addr < hi

/-- A byte is stored where one has been stored before only for the same part, and only if
that may be written again. -/
def Separate (again : κ → Prop) (l : List (Store κ)) : Prop :=
  l.Pairwise fun w w' => w.addr = w'.addr → w.key = w'.key ∧ again w.key

/-- A byte is stored at the address. -/
def Covers (l : List (Store κ)) (a : ℕ) : Prop := ∃ w ∈ l, w.addr = a

/-! ## Blocks -/

@[simp] theorem block_nil (key : κ) (a : ℕ) : block key a [] = [] := rfl

theorem block_append (key : κ) (a : ℕ) (bytes bytes' : List UInt8) :
    block key a (bytes ++ bytes') = block key a bytes ++ block key (a + bytes.length) bytes' := by
  induction bytes generalizing a with
  | nil => rfl
  | cons b bytes ih =>
      rw [List.cons_append, block, ih, block, List.cons_append, List.length_cons,
        Nat.add_right_comm, Nat.add_assoc]

theorem mem_block {key : κ} {a : ℕ} {bytes : List UInt8} {w : Store κ} :
    w ∈ block key a bytes ↔ w.key = key ∧ a ≤ w.addr ∧ bytes[w.addr - a]? = some w.byte := by
  induction bytes generalizing a with
  | nil => simp
  | cons b bytes ih =>
      rw [block, List.mem_cons, ih]
      constructor
      · rintro (rfl | ⟨hkey, hle, hget⟩)
        · simp
        · refine ⟨hkey, by omega, ?_⟩
          rwa [show w.addr - a = w.addr - (a + 1) + 1 by omega, List.getElem?_cons_succ]
      · rintro ⟨hkey, hle, hget⟩
        obtain heq | hlt := Nat.eq_or_lt_of_le hle
        · left
          rw [heq, Nat.sub_self, List.getElem?_cons_zero, Option.some_inj] at hget
          obtain ⟨key', addr, byte⟩ := w
          subst hkey hget heq
          rfl
        · right
          refine ⟨hkey, hlt, ?_⟩
          rwa [show w.addr - a = w.addr - (a + 1) + 1 by omega, List.getElem?_cons_succ] at hget

theorem mem_block_of_getElem? {key : κ} {bytes : List UInt8} {i : ℕ} {b : UInt8}
    (h : bytes[i]? = some b) : (⟨key, a + i, b⟩ : Store κ) ∈ block key a bytes := by
  rw [mem_block]
  refine ⟨rfl, Nat.le_add_right a i, ?_⟩
  rwa [Nat.add_sub_cancel_left]

theorem within_block (key : κ) (a : ℕ) (bytes : List UInt8) :
    Within a (a + bytes.length) (block key a bytes) := by
  intro w hw
  obtain ⟨-, hle, hget⟩ := mem_block.mp hw
  have hlt := (List.getElem?_eq_some_iff.mp hget).1
  omega

theorem covers_block (key : κ) {bytes : List UInt8} {p : ℕ} (h : a ≤ p)
    (h' : p < a + bytes.length) : Covers (block key a bytes) p := by
  obtain ⟨i, rfl⟩ := Nat.exists_eq_add_of_le h
  have hi : i < bytes.length := by omega
  exact ⟨_, mem_block_of_getElem? (List.getElem?_eq_getElem hi), rfl⟩

/-! ## Where stores go -/

theorem within_nil : Within lo hi ([] : List (Store κ)) := fun _ hw => absurd hw List.not_mem_nil

theorem within_append : Within lo hi (l ++ r) ↔ Within lo hi l ∧ Within lo hi r := by
  simp only [Within, List.mem_append]
  exact ⟨fun h => ⟨fun w hw => h w (.inl hw), fun w hw => h w (.inr hw)⟩,
    fun h w hw => hw.elim (h.1 w) (h.2 w)⟩

theorem Within.mono {lo' hi' : ℕ} (h : Within lo hi l) (hlo : lo' ≤ lo) (hhi : hi ≤ hi') :
    Within lo' hi' l :=
  fun w hw => ⟨Nat.le_trans hlo (h w hw).1, Nat.lt_of_lt_of_le (h w hw).2 hhi⟩

theorem Within.not_covers (h : Within lo hi l) {p : ℕ} (hp : p < lo ∨ hi ≤ p) : ¬ Covers l p := by
  rintro ⟨w, hw, rfl⟩
  have := h w hw
  omega

theorem covers_append {p : ℕ} : Covers (l ++ r) p ↔ Covers l p ∨ Covers r p := by
  simp only [Covers, List.mem_append, or_and_right, exists_or]

/-! ## What stores leave -/

theorem image_append (l r : List (Store κ)) (m : Memory) :
    image (l ++ r) m = image r (image l m) :=
  List.foldl_append

theorem image_of_not_covers {p : ℕ} (h : ¬ Covers l p) : image l m p = m p := by
  induction l generalizing m with
  | nil => rfl
  | cons w l ih =>
      have hw : p ≠ w.addr := fun hp => h ⟨w, List.mem_cons_self, hp.symm⟩
      have hl : ¬ Covers l p := fun ⟨w', hw', hp⟩ => h ⟨w', List.mem_cons_of_mem _ hw', hp⟩
      rw [image, List.foldl_cons]
      exact (ih hl).trans (Function.update_of_ne hw _ _)

theorem image_of_covers {p : ℕ} (h : Covers l p) (m m' : Memory) : image l m p = image l m' p := by
  induction l generalizing m m' with
  | nil =>
      obtain ⟨w, hw, -⟩ := h
      exact absurd hw List.not_mem_nil
  | cons w l ih =>
      by_cases hl : Covers l p
      · exact ih hl _ _
      · obtain ⟨w', hw', rfl⟩ := h
        obtain rfl | hw' := List.mem_cons.mp hw'
        · have hleft : ∀ m, image (w' :: l) m w'.addr = w'.byte := fun m =>
            (image_of_not_covers hl).trans (Function.update_self _ _ _)
          rw [hleft, hleft]
        · exact absurd ⟨w', hw', rfl⟩ hl

/-- The stores of a buffer, by their addresses in a memory that has it at `base`. -/
def moved (base : ℕ) (l : List (Store κ)) : List (Store κ) :=
  l.map fun w => { w with addr := base + w.addr }

theorem covers_moved {base p : ℕ} :
    Covers (moved base l) p ↔ ∃ w ∈ l, base + w.addr = p := by
  simp only [Covers, moved, List.mem_map, exists_exists_and_eq_and]

theorem moved_append (base : ℕ) (l r : List (Store κ)) :
    moved base (l ++ r) = moved base l ++ moved base r := List.map_append

theorem moved_block (base : ℕ) (key : κ) (a : ℕ) (bytes : List UInt8) :
    moved base (block key a bytes) = block key (base + a) bytes := by
  induction bytes generalizing a with
  | nil => rfl
  | cons b bytes ih =>
      rw [block, block, moved, List.map_cons]
      exact congrArg (_ :: ·) (ih (a + 1))

/-- The memory holds what the stores leave. -/
def Shows (m : Memory) (l : List (Store κ)) : Prop :=
  ∀ a, Covers l a → ∀ m' : Memory, m a = image l m' a

theorem shows_image (l : List (Store κ)) (m : Memory) : Shows (image l m) l :=
  fun _ ha m' => image_of_covers ha m m'

theorem Shows.infix {s : List (Store κ)} (h : Shows m (l ++ s ++ r))
    (hr : ∀ a, Covers s a → ¬ Covers r a) : Shows m s := by
  intro a ha m'
  rw [h a (covers_append.mpr (.inl (covers_append.mpr (.inr ha)))) m', image_append,
    image_of_not_covers (hr a ha), image_append]
  exact image_of_covers ha _ _

theorem Shows.left (h : Shows m (l ++ r)) (hr : ∀ a, Covers l a → ¬ Covers r a) : Shows m l :=
  Shows.infix (l := []) h hr

theorem Shows.right (h : Shows m (l ++ r)) : Shows m r := by
  rw [← List.append_nil (l ++ r)] at h
  exact h.infix fun _ _ ⟨_, hw, _⟩ => absurd hw List.not_mem_nil

theorem Shows.getElem {key : κ} {bytes : List UInt8} (h : Shows m (block key a bytes)) {i : ℕ}
    (hi : i < bytes.length) : m (a + i) = bytes[i] := by
  induction bytes generalizing a i with
  | nil => exact absurd hi (Nat.not_lt_zero i)
  | cons b bytes ih =>
      have htail : Shows m ([⟨key, a, b⟩] ++ block key (a + 1) bytes) := h
      cases i with
      | zero =>
          have hhead : ¬ Covers (block key (a + 1) bytes) a :=
            (within_block key (a + 1) bytes).not_covers (.inl (Nat.lt_succ_self a))
          have ha := htail a ⟨_, List.mem_cons_self, rfl⟩ m
          rw [image_append, image_of_not_covers hhead] at ha
          exact ha.trans (show Function.update m a b a = b from Function.update_self a b m)
      | succ i =>
          rw [List.getElem_cons_succ, ← ih htail.right (Nat.lt_of_succ_lt_succ hi)]
          exact congrArg m (by omega)

/-! ## Stores that do not overlap -/

theorem separate_block (again : κ → Prop) (key : κ) (a : ℕ) (bytes : List UInt8) :
    Separate again (block key a bytes) := by
  induction bytes generalizing a with
  | nil => exact List.Pairwise.nil
  | cons b bytes ih =>
      refine List.Pairwise.cons (fun w hw haddr => ?_) (ih (a + 1))
      have hle : a + 1 ≤ w.addr := (mem_block.mp hw).2.1
      have haddr' : a = w.addr := haddr
      omega

theorem separate_append (hl : Separate again l) (hr : Separate again r)
    (h : ∀ p, Covers l p → ¬ Covers r p) : Separate again (l ++ r) := by
  refine List.pairwise_append.mpr ⟨hl, hr, fun w hw w' hw' haddr => ?_⟩
  exact absurd ⟨w', hw', haddr.symm⟩ (h w.addr ⟨w, hw, rfl⟩)

theorem separate_append_block (hl : Separate again l) {key : κ} (hkey : again key) {a : ℕ}
    {bytes : List UInt8}
    (h : ∀ w ∈ l, a ≤ w.addr → w.addr < a + bytes.length → w.key = key) :
    Separate again (l ++ block key a bytes) := by
  refine List.pairwise_append.mpr ⟨hl, separate_block again key a bytes, ?_⟩
  intro w hw w' hw' haddr
  have hkey' : w'.key = key := (mem_block.mp hw').1
  have hin := within_block key a bytes w' hw'
  have hkeys : w.key = key := h w hw (by omega) (by omega)
  exact ⟨hkeys.trans hkey'.symm, hkeys ▸ hkey⟩

theorem Separate.append_left (h : Separate again (l ++ r)) : Separate again l :=
  (List.pairwise_append.mp h).1

theorem not_separate_of_mem {w w' : Store κ} (hw : w ∈ l) (hw' : w' ∈ l)
    (haddr : w.addr = w'.addr) (hkey : w.key ≠ w'.key) : ¬ Separate again l := by
  intro h
  induction h with
  | nil => exact absurd hw List.not_mem_nil
  | cons hhead _ ih =>
      rw [List.mem_cons] at hw hw'
      rcases hw with rfl | htail
      · rcases hw' with rfl | htail'
        · exact hkey rfl
        · exact hkey (hhead w' htail' haddr).1
      · rcases hw' with rfl | htail'
        · exact hkey (hhead w htail haddr.symm).1.symm
        · exact ih htail htail'

end Store
