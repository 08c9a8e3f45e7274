import Mathlib.Data.List.Perm.Basic
import Tarako.Lib.Memory

/-!
# TIFF directories

A reader for a big-endian TIFF stream in memory. Offsets are counted from the `base` of the
stream. A directory is a count, its entries and the offset of the next directory; an entry
has its value in its last four bytes, or there the offset of a value that is longer.
-/

namespace Tiff

structure Entry where
  tag : ℕ
  type : ℕ
  count : ℕ
  value : List UInt8
  deriving DecidableEq

/-- The `n` bytes from `a` on. -/
def bytes (m : Memory) (a n : ℕ) : List UInt8 := (List.range n).map fun i => m (a + i)

/-- The number that bytes stand for, the highest one first. -/
def number (l : List UInt8) : ℕ := l.foldl (fun x b => 256 * x + b.toNat) 0

def word16 (m : Memory) (a : ℕ) : ℕ := number (bytes m a 2)

def word32 (m : Memory) (a : ℕ) : ℕ := number (bytes m a 4)

/-- How many bytes an element of a type has. -/
def typeSize : ℕ → ℕ
  | 1 | 2 | 6 | 7 => 1
  | 3 | 8 => 2
  | 4 | 9 | 11 => 4
  | 5 | 10 | 12 => 8
  | _ => 0

def entry (m : Memory) (base a : ℕ) : Entry :=
  let type := word16 m (a + 2)
  let count := word32 m (a + 4)
  let size := typeSize type * count
  { tag := word16 m a
    type := type
    count := count
    value := if size ≤ 4 then bytes m (a + 8) size else bytes m (base + word32 m (a + 8)) size }

def entries (m : Memory) (base n a : ℕ) : List Entry :=
  (List.range n).map fun i => entry m base (a + 12 * i)

def directory (m : Memory) (base offset : ℕ) : List Entry :=
  entries m base (word16 m (base + offset)) (base + offset + 2)

/-- The offset of the first directory. -/
def first (m : Memory) (base : ℕ) : ℕ := word32 m (base + 4)

/-- The offset of the directory behind the one at `offset`. -/
def next (m : Memory) (base offset : ℕ) : ℕ :=
  word32 m (base + offset + 2 + 12 * word16 m (base + offset))

def find (l : List Entry) (tag : ℕ) : Option Entry := l.find? fun e => e.tag == tag

/-- The directory that an entry points to; without the entry it has none. -/
def sub (m : Memory) (base : ℕ) (l : List Entry) (tag : ℕ) : List Entry :=
  match find l tag with
  | none => []
  | some e => directory m base (number e.value)

variable {m : Memory} {base a : ℕ}

@[simp] theorem length_bytes (m : Memory) (a n : ℕ) : (bytes m a n).length = n := by
  rw [bytes, List.length_map, List.length_range]

theorem bytes_add (m : Memory) (a n k : ℕ) :
    bytes m a (n + k) = bytes m a n ++ bytes m (a + n) k :=
  Memory.bytes_add m a n k

theorem bytes_eq {l : List UInt8} (h : ∀ i (hi : i < l.length), m (a + i) = l[i]) :
    bytes m a l.length = l := by
  refine List.ext_getElem (length_bytes m a _) fun i hi hi' => ?_
  simp only [bytes, List.getElem_map, List.getElem_range]
  exact h i hi'

theorem bytes_take (m : Memory) (a : ℕ) {n k : ℕ} (h : n ≤ k) :
    bytes m a n = (bytes m a k).take n := by
  obtain ⟨j, rfl⟩ := Nat.exists_eq_add_of_le h
  rw [bytes_add, List.take_left' (length_bytes m a n)]

theorem entries_add (m : Memory) (base n k a : ℕ) :
    entries m base (n + k) a = entries m base n a ++ entries m base k (a + 12 * n) := by
  rw [entries, List.range_add, List.map_append, List.map_map]
  refine congrArg (entries m base n a ++ ·) (List.map_congr_left fun i _ => ?_)
  exact congrArg (entry m base) (by rw [Nat.mul_add, Nat.add_assoc])

theorem entry_eq {tag type count value : List UInt8}
    (htype : type.length = 2) (hcount : count.length = 4) (hvalue : value.length = 4)
    (h : bytes m a 12 = tag ++ type ++ count ++ value) :
    entry m base a =
      { tag := number tag
        type := number type
        count := number count
        value :=
          if typeSize (number type) * number count ≤ 4 then
            value.take (typeSize (number type) * number count)
          else bytes m (base + number value) (typeSize (number type) * number count) } := by
  have hsplit : bytes m a 12 =
      bytes m a 2 ++ bytes m (a + 2) 2 ++ bytes m (a + 4) 4 ++ bytes m (a + 8) 4 := by
    rw [← bytes_add m a 2 2, ← bytes_add m a 4 4, ← bytes_add m a 8 4]
  rw [hsplit] at h
  obtain ⟨h, hvalue'⟩ := List.append_inj' h (by rw [length_bytes, hvalue])
  obtain ⟨h, hcount'⟩ := List.append_inj' h (by rw [length_bytes, hcount])
  obtain ⟨htag', htype'⟩ := List.append_inj' h (by rw [length_bytes, htype])
  rw [entry, word16, word16, word32, word32, htag', htype', hcount', hvalue']
  congr 1
  split
  · rename_i hle
    rw [bytes_take m (a + 8) hle, hvalue']
  · rfl

/-! ## Directories by their slots -/

/-- A list of slots: each has a tag and the entry with the tag, if there is one. -/
abbrev Slots := List (ℕ × Option Entry)

def Slots.entries (A : Slots) : List Entry := A.filterMap Prod.snd

/-- Each entry has the tag of its slot. -/
def Slots.Tagged (A : Slots) : Prop := ∀ p ∈ A, ∀ e, p.2 = some e → e.tag = p.1

namespace Slots

variable {A B : Slots}

theorem Tagged.cons {p : ℕ × Option Entry} (hp : ∀ e, p.2 = some e → e.tag = p.1)
    (hA : A.Tagged) : Slots.Tagged (p :: A) := by
  intro q hq
  obtain rfl | hq := List.mem_cons.mp hq
  · exact hp
  · exact hA q hq

theorem Tagged.append (hA : A.Tagged) (hB : B.Tagged) : Slots.Tagged (A ++ B) := fun p hp =>
  (List.mem_append.mp hp).elim (hA p) (hB p)

theorem Tagged.tail {p : ℕ × Option Entry} (h : Slots.Tagged (p :: A)) : A.Tagged := fun q hq =>
  h q (List.mem_cons_of_mem _ hq)

theorem tag_mem_of_mem (hA : A.Tagged) {e : Entry} (he : e ∈ A.entries) :
    e.tag ∈ A.map Prod.fst := by
  obtain ⟨p, hp, hpe⟩ := List.mem_filterMap.mp he
  exact List.mem_map.mpr ⟨p, hp, (hA p hp e hpe).symm⟩

theorem entries_cons_none (k : ℕ) (A : Slots) : Slots.entries ((k, none) :: A) = A.entries := rfl

theorem entries_cons_some (k : ℕ) (e : Entry) (A : Slots) :
    Slots.entries ((k, some e) :: A) = e :: A.entries := rfl

theorem nodup_tags (hA : A.Tagged) (hnodup : (A.map Prod.fst).Nodup) :
    (A.entries.map Entry.tag).Nodup := by
  induction A with
  | nil => exact List.nodup_nil
  | cons p A ih =>
      obtain ⟨k, x⟩ := p
      have hnodup' := List.nodup_cons.mp hnodup
      have hrest := ih hA.tail hnodup'.2
      cases x with
      | none => exact hrest
      | some e =>
          have htag : e.tag = k := hA (k, some e) List.mem_cons_self e rfl
          refine List.nodup_cons.mpr ⟨fun hmem => ?_, hrest⟩
          obtain ⟨e', he', heq⟩ := List.mem_map.mp hmem
          exact hnodup'.1 (htag ▸ heq ▸ tag_mem_of_mem hA.tail he')

theorem find_of_mem (hA : A.Tagged) (hnodup : (A.map Prod.fst).Nodup) {k : ℕ} {x : Option Entry}
    (hmem : (k, x) ∈ A) : find A.entries k = x := by
  induction A with
  | nil => exact absurd hmem List.not_mem_nil
  | cons p A ih =>
      obtain ⟨k', y⟩ := p
      have hnodup' := List.nodup_cons.mp hnodup
      have htag : ∀ e, y = some e → e.tag = k' := hA (k', y) List.mem_cons_self
      obtain heq | hmem' := List.mem_cons.mp hmem
      · obtain ⟨rfl, rfl⟩ := Prod.mk.inj heq
        cases x with
        | none =>
            refine List.find?_eq_none.mpr fun e he => ?_
            have hne : e.tag ≠ k := fun htag => hnodup'.1 (htag ▸ tag_mem_of_mem hA.tail he)
            simpa using hne
        | some e => exact List.find?_cons_of_pos (by simpa using htag e rfl)
      · have hne : k' ≠ k := fun heq => hnodup'.1 (heq ▸ List.mem_map.mpr ⟨(k, x), hmem', rfl⟩)
        cases y with
        | none => exact ih hA.tail hnodup'.2 hmem'
        | some e =>
            refine (List.find?_cons_of_neg ?_).trans (ih hA.tail hnodup'.2 hmem')
            simpa [htag e rfl] using hne

/-- The entries with some tags are those of the slots with these tags. -/
theorem filter_entries (hA : A.Tagged) (p : ℕ → Bool) :
    A.entries.filter (fun e => p e.tag) = Slots.entries (A.filter fun s => p s.1) := by
  induction A with
  | nil => rfl
  | cons s A ih =>
      obtain ⟨k, x⟩ := s
      have hrest := ih hA.tail
      cases x with
      | none =>
          rw [entries_cons_none, hrest, List.filter_cons]
          split <;> rfl
      | some e =>
          have htag : e.tag = k := hA (k, some e) List.mem_cons_self e rfl
          rw [entries_cons_some, List.filter_cons, List.filter_cons, htag, hrest]
          split <;> rfl

/-- Slots with the same tags, each of them once, have the same entries only if they are the
same. -/
theorem perm_entries_iff (htags : A.map Prod.fst = B.map Prod.fst)
    (hnodup : (A.map Prod.fst).Nodup) (hA : A.Tagged) (hB : B.Tagged) :
    A.entries.Perm B.entries ↔ A = B := by
  refine ⟨fun hperm => ?_, fun h => h ▸ .refl _⟩
  induction A generalizing B with
  | nil => exact (List.map_eq_nil_iff.mp htags.symm).symm
  | cons p A ih =>
      cases B with
      | nil => exact absurd htags (List.cons_ne_nil _ _)
      | cons q B =>
          obtain ⟨k, x⟩ := p
          obtain ⟨k', y⟩ := q
          obtain ⟨hk, htags'⟩ := List.cons.inj htags
          obtain rfl : k = k' := hk
          have hnodup' := List.nodup_cons.mp hnodup
          have hnotA : ∀ e ∈ Slots.entries A, e.tag ≠ k := fun e he htag =>
            hnodup'.1 (htag ▸ tag_mem_of_mem hA.tail he)
          have hnotB : ∀ e ∈ Slots.entries B, e.tag ≠ k := fun e he htag =>
            hnodup'.1 (htags' ▸ htag ▸ tag_mem_of_mem hB.tail he)
          have htagA : ∀ e, x = some e → e.tag = k := hA (k, x) List.mem_cons_self
          have htagB : ∀ e, y = some e → e.tag = k := hB (k, y) List.mem_cons_self
          cases x with
          | none =>
              cases y with
              | none => rw [ih htags' hnodup'.2 hA.tail hB.tail hperm]
              | some e =>
                  have he : e ∈ Slots.entries A := hperm.mem_iff.mpr List.mem_cons_self
                  exact absurd (htagB e rfl) (hnotA e he)
          | some e =>
              have he : e ∈ Slots.entries ((k, y) :: B) := hperm.mem_iff.mp List.mem_cons_self
              cases y with
              | none => exact absurd (htagA e rfl) (hnotB e he)
              | some e' =>
                  obtain rfl | he := List.mem_cons.mp he
                  · rw [ih htags' hnodup'.2 hA.tail hB.tail hperm.cons_inv]
                  · exact absurd (htagA e rfl) (hnotB e he)

end Slots

end Tiff
