import Plainkey.Go

/-!
# Plainkey.Slice

Go slices of `[]byte` keys as the runtime lays them out: a header (`Slice`) that names a backing
array, an offset, a length and a capacity, over a heap of arrays (`Heap`). Two headers may share
an array, and a store through one can change what another shows. A key, the element type, is a
value here: the model covers the arrays of `[][]byte`, not the bytes of each key.

`append(old, xs...)` extends `old` in place when its capacity allows; otherwise the runtime
allocates a larger array, copies `old` into it, and the elements go there (`appendAlloc`). The
runtime's choice of the larger capacity is a parameter (`Grow`).

* `Slice.elems_write`: a store outside a slice's range leaves what the slice shows unchanged.
* `Slice.elems_alloc`: so does an allocation, for a slice inside its array.
* `Slice.elems_take_write`: a store just past a prefix of a slice extends the prefix by the
  value stored.
-/

namespace Plainkey

/-- A slice header of a `[][]byte`: backing array, offset, length, capacity. -/
structure Slice where
  arr : Nat
  off : Nat
  len : Nat
  cap : Nat
deriving DecidableEq, Repr

abbrev Heap := List (List Bytes)

namespace Heap

def array (h : Heap) (a : Nat) : List Bytes := h.getD a []

def get (h : Heap) (a j : Nat) : Bytes := (h.array a).getD j []

def write (h : Heap) (a j : Nat) (v : Bytes) : Heap := h.set a ((h.array a).set j v)

theorem array_write (h : Heap) (a j : Nat) (v : Bytes) (b : Nat) :
    (h.write a j v).array b = if a = b then (h.array a).set j v else h.array b := by
  unfold write array
  rw [List.getD_eq_getElem?_getD, List.getElem?_set]
  by_cases hab : a = b
  · subst hab
    by_cases ha : a < h.length
    · simp [ha]
    · simp [ha, List.getD_eq_getElem?_getD, List.getElem?_eq_none (Nat.le_of_not_lt ha)]
  · simp [hab, List.getD_eq_getElem?_getD]

@[simp] theorem length_array_write (h : Heap) (a j : Nat) (v : Bytes) (b : Nat) :
    ((h.write a j v).array b).length = (h.array b).length := by
  rw [array_write]
  split <;> simp_all

theorem array_alloc (h : Heap) (x : List Bytes) (b : Nat) :
    (h ++ [x]).array b = if b = h.length then x else h.array b := by
  unfold array
  rw [List.getD_eq_getElem?_getD, List.getD_eq_getElem?_getD]
  split
  · subst_vars; simp
  · rcases Nat.lt_or_ge b h.length with hb | hb
    · rw [List.getElem?_append_left hb]
    · obtain ⟨k, rfl⟩ : ∃ k, b = h.length + k + 1 := ⟨b - h.length - 1, by omega⟩
      rw [List.getElem?_append_right hb, List.getElem?_eq_none hb,
        show h.length + k + 1 - h.length = k + 1 by omega]
      rfl

end Heap

structure Region where
  arr : Nat
  lo : Nat
  hi : Nat

def Region.Disjoint (r r' : Region) : Prop :=
  r.arr ≠ r'.arr ∨ r.hi ≤ r'.lo ∨ r'.hi ≤ r.lo ∨ r.hi ≤ r.lo ∨ r'.hi ≤ r'.lo

theorem Region.Disjoint.symm {r r' : Region} (h : r.Disjoint r') : r'.Disjoint r := by
  unfold Region.Disjoint at *
  omega

def Region.Sub (r r' : Region) : Prop :=
  r.hi ≤ r.lo ∨ (r.arr = r'.arr ∧ r'.lo ≤ r.lo ∧ r.hi ≤ r'.hi)

theorem Region.Sub.refl (r : Region) : r.Sub r := .inr ⟨rfl, le_rfl, le_rfl⟩

theorem Region.Disjoint.mono {r r' s s' : Region} (h : r.Disjoint r') (hs : s.Sub r)
    (hs' : s'.Sub r') : s.Disjoint s' := by
  unfold Region.Disjoint Region.Sub at *
  omega

namespace Slice

def nil : Slice := ⟨0, 0, 0, 0⟩

/-- What the slice shows: `len` elements of its array from `off`. -/
def elems (h : Heap) (s : Slice) : List Bytes := ((h.array s.arr).drop s.off).take s.len

def WF (h : Heap) (s : Slice) : Prop := s.len ≤ s.cap ∧ s.off + s.cap ≤ (h.array s.arr).length

instance (h : Heap) (s : Slice) : Decidable (s.WF h) := inferInstanceAs (Decidable (_ ∧ _))

def range (s : Slice) : Region := ⟨s.arr, s.off, s.off + s.len⟩

/-- The spare capacity behind them, where an `append` in place stores. -/
def tail (s : Slice) : Region := ⟨s.arr, s.off + s.len, s.off + s.cap⟩

def whole (s : Slice) : Region := ⟨s.arr, s.off, s.off + s.cap⟩

theorem getElem?_elems (h : Heap) (s : Slice) (t : Nat) :
    (s.elems h)[t]? = if t < s.len then (h.array s.arr)[s.off + t]? else none := by
  simp only [elems, List.getElem?_take, List.getElem?_drop]

theorem length_elems {h : Heap} {s : Slice} (hs : s.off + s.len ≤ (h.array s.arr).length) :
    (s.elems h).length = s.len := by
  simp only [elems, List.length_take, List.length_drop]
  omega

theorem range_disjoint_tail (s : Slice) : s.range.Disjoint s.tail := by
  simp only [range, tail, Region.Disjoint]
  omega

theorem range_sub_whole {s : Slice} (hs : s.len ≤ s.cap) : s.range.Sub s.whole :=
  .inr ⟨rfl, le_rfl, Nat.add_le_add_left hs _⟩

theorem tail_sub_whole (s : Slice) : s.tail.Sub s.whole :=
  .inr ⟨rfl, Nat.le_add_right _ _, le_rfl⟩

theorem whole_disjoint {s : Slice} {r : Region} (h₁ : s.range.Disjoint r)
    (h₂ : s.tail.Disjoint r) : s.whole.Disjoint r := by
  simp only [Region.Disjoint, range, tail, whole] at *
  omega

theorem get_eq_getElem {h : Heap} {s : Slice} {k : Nat} (hk : k < s.len)
    (hs : s.off + s.len ≤ (h.array s.arr).length) :
    some (h.get s.arr (s.off + k)) = (s.elems h)[k]? := by
  rw [getElem?_elems, if_pos hk, Heap.get, List.getD_eq_getElem?_getD,
    List.getElem?_eq_getElem (by omega)]
  rfl

theorem elems_write {h : Heap} {s : Slice} {a j : Nat} (v : Bytes)
    (hd : s.range.Disjoint ⟨a, j, j + 1⟩) : s.elems (h.write a j v) = s.elems h := by
  apply List.ext_getElem?
  intro t
  rw [getElem?_elems, getElem?_elems, Heap.array_write]
  by_cases ht : t < s.len
  · simp only [if_pos ht]
    split
    · subst_vars
      simp only [range, Region.Disjoint, ne_eq, not_true_eq_false, false_or] at hd
      rw [List.getElem?_set, if_neg (by omega)]
    · rfl
  · simp only [if_neg ht]

theorem elems_alloc {h : Heap} {s : Slice} (x : List Bytes)
    (hs : s.off + s.len ≤ (h.array s.arr).length) : s.elems (h ++ [x]) = s.elems h := by
  unfold elems
  rw [Heap.array_alloc]
  split
  · rename_i ha
    have : h.array h.length = [] := by simp [Heap.array, List.getD_eq_getElem?_getD]
    rw [ha, this] at hs ⊢
    simp only [List.length_nil, Nat.le_zero, Nat.add_eq_zero] at hs
    simp [hs.2]
  · rfl

theorem elems_take (h : Heap) (s : Slice) (n : Nat) :
    (s.elems h).take n = ({ s with len := min n s.len } : Slice).elems h := by
  simp only [elems, List.take_take]

theorem elems_take_write {h : Heap} {s : Slice} {m : Nat} (v : Bytes) (hm : m < s.len)
    (hs : s.off + s.len ≤ (h.array s.arr).length) :
    (s.elems (h.write s.arr (s.off + m) v)).take (m + 1) = (s.elems h).take m ++ [v] := by
  have hpre : (s.elems (h.write s.arr (s.off + m) v)).take m = (s.elems h).take m := by
    rw [elems_take, elems_take]
    exact elems_write v (by unfold range Region.Disjoint; simp only; omega)
  have hat : (s.elems (h.write s.arr (s.off + m) v))[m]? = some v := by
    rw [getElem?_elems, if_pos hm, Heap.array_write, if_pos rfl, List.getElem?_set,
      if_pos rfl, if_pos (by omega)]
  rw [List.take_succ, hpre, hat]
  rfl

end Slice

/-- The runtime's choice of capacity when `append` needs a new array: never less than the length
needed. -/
structure Grow where
  cap : Nat → Nat → Nat
  le_cap : ∀ old n, n ≤ cap old n

def Grow.exact : Grow := ⟨fun _ n => n, fun _ _ => le_rfl⟩

/-- `append(old, xs...)` for `n` elements `xs`, before they are copied: the heap after any
allocation, and the header `append` returns. With room in `old`'s array it extends `old` in
place; otherwise a new array of capacity `g.cap old.cap (old.len + n)` at the end of the heap
gets a copy of `old`. -/
def appendAlloc (g : Grow) (h : Heap) (old : Slice) (n : Nat) : Heap × Slice :=
  if old.len + n ≤ old.cap then (h, { old with len := old.len + n })
  else
    let c := g.cap old.cap (old.len + n)
    (h ++ [old.elems h ++ List.replicate (c - old.len) []], ⟨h.length, 0, old.len + n, c⟩)

end Plainkey
