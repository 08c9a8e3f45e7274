import Mathlib.Algebra.Order.BigOperators.Group.List
import Mathlib.Algebra.Order.Group.Nat
import Tarako.Lib.Text

/-!
# Printing the fields of a C struct

A struct is a list of fields: numbers, character arrays, and arrays that were filled from
memory nothing was written to. A format is a list of pieces, and `%s` prints from the start
of a field to the next NUL, through the fields behind it and past the end of the struct.
`print_eq_iff` says when the printed text does not depend on the memory that is not the
struct's own.
-/

namespace Printf

open Text

/-- Memory that is not written before it is read: what the array of a field was filled
from, and what is behind the struct. -/
structure Outside where
  stack : ℕ → List UInt8
  beyond : List UInt8

def Outside.zero : Outside := ⟨fun _ => [], []⟩

/-- Memory with no zero in the first `k` bytes. -/
def Outside.full (k : ℕ) : Outside := ⟨fun _ => List.replicate k 1, [1]⟩

/-- The first `size` bytes from `l` on. -/
def array (size : ℕ) (l : List UInt8) : List UInt8 := (l ++ List.replicate size 0).take size

/-- The bytes of an `int`, the lowest first. -/
def intBytes (n : ℤ) : List UInt8 :=
  [UInt8.ofNat (n % 2 ^ 32).toNat, UInt8.ofNat ((n % 2 ^ 32).toNat / 2 ^ 8),
    UInt8.ofNat ((n % 2 ^ 32).toNat / 2 ^ 16), UInt8.ofNat ((n % 2 ^ 32).toNat / 2 ^ 24)]

inductive Field where
  | int (n : ℤ)
  | str (bytes : List UInt8)
  | garbage (size : ℕ)
  deriving DecidableEq

/-- The bytes of the `i`-th field. -/
def Field.bytes (o : Outside) (i : ℕ) : Field → List UInt8
  | .int n => intBytes n
  | .str bytes => bytes
  | .garbage size => array size (o.stack i)

/-- The bytes of the fields from the `i`-th on. -/
def bytesFrom (o : Outside) : ℕ → List Field → List UInt8
  | _, [] => []
  | i, f :: fields => f.bytes o i ++ bytesFrom o (i + 1) fields

/-- The bytes from the `i`-th field to the end of the struct, with `pad` bytes of padding
that are zero. -/
def tail (o : Outside) (pad : ℕ) (fields : List Field) (i : ℕ) : List UInt8 :=
  bytesFrom o i (fields.drop i) ++ List.replicate pad 0

/-- The string that starts at the `i`-th field. -/
def strAt (o : Outside) (pad : ℕ) (fields : List Field) (i : ℕ) : List UInt8 :=
  cstring (tail o pad fields i ++ o.beyond)

def intAt (fields : List Field) (i : ℕ) : ℤ :=
  match fields[i]? with
  | some (.int n) => n
  | _ => 0

/-- A literal text, `%d` with the `i`-th field, or `%s` with it. -/
inductive Piece where
  | lit (text : List UInt8)
  | int (i : ℕ)
  | str (i : ℕ)
  deriving DecidableEq

def Piece.print (o : Outside) (pad : ℕ) (fields : List Field) : Piece → List UInt8
  | .lit text => text
  | .int i => decimalInt (intAt fields i)
  | .str i => strAt o pad fields i

/-- `sprintf`. -/
def print (o : Outside) (pad : ℕ) (fields : List Field) (fmt : List Piece) : List UInt8 :=
  fmt.flatMap (Piece.print o pad fields)

/-! ## Structs of their own bytes -/

/-- No array was filled from memory nothing was written to. -/
def Closed (fields : List Field) : Prop := ∀ size, .garbage size ∉ fields

/-- Every string that is printed ends inside the struct. -/
def Terminated (pad : ℕ) (fields : List Field) (fmt : List Piece) : Prop :=
  ∀ i, .str i ∈ fmt → 0 ∈ tail Outside.zero pad fields i

theorem Closed.bytesFrom_eq {fields : List Field} (h : Closed fields) (o p : Outside) (i : ℕ) :
    bytesFrom o i fields = bytesFrom p i fields := by
  induction fields generalizing i with
  | nil => rfl
  | cons f fields ih =>
      have hrest : Closed fields := fun size hmem => h size (List.mem_cons_of_mem f hmem)
      rw [bytesFrom, bytesFrom, ih hrest]
      cases f with
      | int n => rfl
      | str bytes => rfl
      | garbage size => exact absurd List.mem_cons_self (h size)

theorem Closed.drop {fields : List Field} (h : Closed fields) (i : ℕ) :
    Closed (fields.drop i) := fun size hmem => h size (List.mem_of_mem_drop hmem)

theorem Closed.tail_eq {fields : List Field} (h : Closed fields) (o p : Outside) (pad i : ℕ) :
    tail o pad fields i = tail p pad fields i := by
  rw [tail, (h.drop i).bytesFrom_eq o p i, tail]

theorem print_congr {pad : ℕ} {fields : List Field} {fmt : List Piece} (hclosed : Closed fields)
    (hterm : Terminated pad fields fmt) (o p : Outside) :
    print o pad fields fmt = print p pad fields fmt := by
  unfold print
  refine List.flatMap_congr fun piece hmem => ?_
  cases piece with
  | lit text => rfl
  | int i => rfl
  | str i =>
      have hend := hterm i hmem
      have ho : 0 ∈ tail o pad fields i := by rwa [hclosed.tail_eq o Outside.zero]
      have hp : 0 ∈ tail p pad fields i := by rwa [hclosed.tail_eq p Outside.zero]
      change strAt o pad fields i = strAt p pad fields i
      rw [strAt, cstring_append_of_mem ho, hclosed.tail_eq o p, strAt, cstring_append_of_mem hp]

/-! ## Structs that print other memory -/

theorem length_array (size : ℕ) (l : List UInt8) : (array size l).length = size := by
  simp [array]

theorem array_of_le {size : ℕ} {l : List UInt8} (h : size ≤ l.length) :
    array size l = l.take size := by
  rw [array, List.take_append_of_le_length h]

theorem zero_mem_array {size : ℕ} {l : List UInt8} (h : l.length < size) : 0 ∈ array size l := by
  rw [array, List.take_append, List.take_replicate]
  exact List.mem_append_right _ (List.mem_replicate.mpr ⟨by omega, rfl⟩)

theorem length_cstring_le_of_forall₂ {l m : List UInt8}
    (h : List.Forall₂ (fun a b => b = 0 → a = 0) l m) :
    (cstring l).length ≤ (cstring m).length := by
  induction h with
  | nil => exact Nat.le_refl _
  | @cons a b l m hab _ ih =>
      by_cases hb : b = 0
      · simp [cstring, hb, hab hb]
      · by_cases ha : a = 0
        · simp [cstring, ha]
        · simpa [cstring, ha, hb] using ih

theorem length_cstring_append_le (l m : List UInt8) :
    (cstring l).length ≤ (cstring (l ++ m)).length := by
  by_cases h : 0 ∈ l
  · rw [cstring_append_of_mem h]
  · rw [cstring_append_of_not_mem h, cstring_of_not_mem h, List.length_append]
    exact Nat.le_add_right _ _

theorem array_full {k size : ℕ} (h : size ≤ k) :
    array size (List.replicate k 1) = List.replicate size 1 := by
  rw [array_of_le (by simpa using h), List.take_replicate, Nat.min_eq_left h]

/-- The arrays of a struct that may be filled so have at most `k` bytes. -/
def Small (k : ℕ) (fields : List Field) : Prop := ∀ size, .garbage size ∈ fields → size ≤ k

theorem forall₂_replicate_one (l : List UInt8) :
    List.Forall₂ (fun a b => b = 0 → a = 0) l (List.replicate l.length (1 : UInt8)) := by
  induction l with
  | nil => exact List.Forall₂.nil
  | cons a l ih =>
      rw [List.length_cons, List.replicate_succ]
      exact List.Forall₂.cons (fun h => absurd h (by decide)) ih

theorem forall₂_bytesFrom {k : ℕ} {fields : List Field} (h : Small k fields) (i : ℕ) :
    List.Forall₂ (fun a b => b = 0 → a = 0) (bytesFrom Outside.zero i fields)
      (bytesFrom (Outside.full k) i fields) := by
  induction fields generalizing i with
  | nil => exact List.Forall₂.nil
  | cons f fields ih =>
      have hrest : Small k fields := fun size hmem => h size (List.mem_cons_of_mem f hmem)
      refine List.rel_append ?_ (ih hrest (i + 1))
      cases f with
      | int n => exact List.forall₂_same.mpr fun _ _ => id
      | str bytes => exact List.forall₂_same.mpr fun _ _ => id
      | garbage size =>
          have hone := forall₂_replicate_one (array size [])
          rw [length_array] at hone
          rw [Field.bytes, Field.bytes, Outside.full, array_full (h size List.mem_cons_self)]
          exact hone

theorem length_strAt_le {k : ℕ} {fields : List Field} (h : Small k fields) (pad i : ℕ) :
    (strAt Outside.zero pad fields i).length ≤ (strAt (Outside.full k) pad fields i).length := by
  have hsmall : Small k (fields.drop i) := fun size hmem => h size (List.mem_of_mem_drop hmem)
  have htail : List.Forall₂ (fun a b => b = 0 → a = 0) (tail Outside.zero pad fields i)
      (tail (Outside.full k) pad fields i) :=
    List.rel_append (forall₂_bytesFrom hsmall i) (List.forall₂_same.mpr fun _ _ => id)
  calc (strAt Outside.zero pad fields i).length
      = (cstring (tail Outside.zero pad fields i)).length := by
        rw [strAt, Outside.zero, List.append_nil]
    _ ≤ (cstring (tail (Outside.full k) pad fields i)).length :=
        length_cstring_le_of_forall₂ htail
    _ ≤ (strAt (Outside.full k) pad fields i).length := length_cstring_append_le _ _

/-- An array of garbage prints nothing over zero memory, and something otherwise. -/
theorem length_strAt_lt_of_garbage {k : ℕ} {fields : List Field} {i size : ℕ}
    (hfield : fields[i]? = some (.garbage size)) (hpos : 0 < size) (hle : size ≤ k) (pad : ℕ) :
    (strAt Outside.zero pad fields i).length < (strAt (Outside.full k) pad fields i).length := by
  obtain ⟨hlt, hget⟩ := List.getElem?_eq_some_iff.mp hfield
  obtain ⟨size, rfl⟩ : ∃ n, size = n + 1 := ⟨size - 1, by omega⟩
  have hzero : (strAt Outside.zero pad fields i).length = 0 := by
    rw [strAt, tail, List.drop_eq_getElem_cons hlt, hget, bytesFrom, Field.bytes, Outside.zero,
      array, List.nil_append, List.take_replicate, Nat.min_self, List.replicate_succ]
    simp [cstring]
  have hfull : 0 < (strAt (Outside.full k) pad fields i).length := by
    rw [strAt, tail, List.drop_eq_getElem_cons hlt, hget, bytesFrom, Field.bytes, Outside.full,
      array_full hle, List.replicate_succ]
    simp [cstring]
  omega

theorem length_strAt_lt_of_not_mem {fields : List Field} (h : Closed fields) {pad i : ℕ}
    (hnul : 0 ∉ tail Outside.zero pad fields i) (k : ℕ) :
    (strAt Outside.zero pad fields i).length < (strAt (Outside.full k) pad fields i).length := by
  rw [strAt, strAt, h.tail_eq (Outside.full k) Outside.zero, cstring_append_of_not_mem hnul,
    cstring_append_of_not_mem hnul]
  simp [Outside.zero, Outside.full, cstring]

theorem print_ne_of_length_lt {k : ℕ} {fields : List Field} (h : Small k fields) {pad i : ℕ}
    {fmt : List Piece} (hmem : .str i ∈ fmt)
    (hlt : (strAt Outside.zero pad fields i).length <
      (strAt (Outside.full k) pad fields i).length) :
    print Outside.zero pad fields fmt ≠ print (Outside.full k) pad fields fmt := by
  have hsum : (fmt.map fun x => (x.print Outside.zero pad fields).length).sum <
      (fmt.map fun x => (x.print (Outside.full k) pad fields).length).sum := by
    refine List.sum_lt_sum _ _ (fun x _ => ?_) ⟨.str i, hmem, hlt⟩
    cases x with
    | lit text => exact Nat.le_refl _
    | int j => exact Nat.le_refl _
    | str j => exact length_strAt_le h pad j
  intro heq
  have hlength := congrArg List.length heq
  rw [print, print, List.length_flatMap, List.length_flatMap] at hlength
  exact absurd hlength (Nat.ne_of_lt hsum)

/-- The text does not depend on memory that is not the struct's exactly when no array comes
from there and every string that is printed ends in the struct, if all such arrays are
printed. -/
theorem print_eq_iff {k pad : ℕ} {fields : List Field} {fmt : List Piece}
    (hprinted : ∀ i size, fields[i]? = some (.garbage size) →
      0 < size ∧ size ≤ k ∧ .str i ∈ fmt) :
    (∀ o p, print o pad fields fmt = print p pad fields fmt) ↔
      Closed fields ∧ Terminated pad fields fmt := by
  have hsmall : Small k fields := by
    intro size hmem
    obtain ⟨i, hi⟩ := List.getElem?_of_mem hmem
    exact (hprinted i size hi).2.1
  constructor
  · intro h
    have hclosed : Closed fields := by
      intro size hmem
      obtain ⟨i, hi⟩ := List.getElem?_of_mem hmem
      obtain ⟨hpos, hle, hfmt⟩ := hprinted i size hi
      exact print_ne_of_length_lt hsmall hfmt (length_strAt_lt_of_garbage hi hpos hle pad) (h _ _)
    refine ⟨hclosed, fun i hfmt => ?_⟩
    by_contra hnul
    exact print_ne_of_length_lt hsmall hfmt (length_strAt_lt_of_not_mem hclosed hnul k) (h _ _)
  · rintro ⟨hclosed, hterm⟩ o p
    exact print_congr hclosed hterm o p

end Printf
