import Plainkey.Memory
import Plainkey.Order

/-!
# Plainkey.Refine

The slice model of `Plainkey.Memory` refines the value model of `Plainkey.Interleave`, when the
callers do not alias: `Sys.abs` reads each slice as the list it shows, and every step of a
goroutine in the slice model is the same goroutine's step in the value model, or changes nothing
the value model sees. The theorems of `Plainkey.Safety` and `Plainkey.Order` then hold of the
code with its real slices.

What makes it hold is where `append` stores. The free regions are the spare capacity of the
store (`Slice.tail`), that of each pending `SetPlatformKeys` argument, and the fresh array of an
`append` that grew; the published ones are the elements of the store and of every slice a
goroutine holds. `Layout`: no free region meets a published one or another free region. An
`append` in place stores only into the store's spare capacity, so no snapshot a reader holds
changes, although the array under it does (spec §3 asks that a snapshot stay unchanged).

`NoAlias`: the slice of every `SetPlatformKeys` or `AddPlatformKeys` call lies inside its array,
and no two write calls, of either kind, get slices of nonzero capacity over one array. It is
what the callers must keep to: without it two `SetPlatformKeys` calls on one array let an
`append` in place store into a snapshot a reader is reading (`reachable_race_of_aliased`), and
`getPlatformKey` is no longer linearizable (`reachable_get_of_aliased`).

* `step_abs`: a step of the slice model is the same goroutine's step of the value model, or
  leaves the abstraction unchanged.
* `reachable_abs`: every reachable state abstracts to a reachable state of the value model.
* `reachable_views_stable`: no step changes the elements of a slice a goroutine holds, nor those
  of the store unless it assigns the store.
* `reachable_heap_race_free`: no goroutine's next load or store is at the element another
  goroutine's next store is at.
* `reachable_store_elems`, `reachable_get_linearizable`, `reachable_recover_linearizable`,
  `reachable_get_after_write`, `reachable_recover_after_write`: the store, linearizability and
  the ordering guarantee of spec §5, from `Plainkey.Safety` and `Plainkey.Order`.
* `reachable_copy_disjoint`: `append` never stores into the slice it copies from, so its
  element-by-element copy is Go's `memmove`.
-/

namespace Plainkey
namespace Mem

/-! ## The abstraction -/

def Op.abs (h : Heap) : Op → Plainkey.Op
  | .set keys => .set (keys.elems h)
  | .add keys => .add (keys.elems h)

def Call.abs (h : Heap) : Call → Plainkey.Call
  | .write op => .write (op.abs h)
  | .get id => .get id
  | .recover data encryptedPayload => .recover data encryptedPayload

/-- A phase of the value model: slices read as lists, an `append` that is copying as one that has
read the store, and a loop at any element as the loop over the whole copy. -/
def Phase.abs (h : Heap) : Phase → Plainkey.Phase
  | .lock op => .lock (op.abs h)
  | .wait op => .wait (op.abs h)
  | .assign keys => .assign (keys.elems h)
  | .appendRead keys => .appendRead (keys.elems h)
  | .appendCopy keys old _ _ => .appendWrite (keys.elems h) (old.elems h)
  | .unlock op => .unlock (op.abs h)
  | .wrote op => .wrote (op.abs h)
  | .recover data encryptedPayload => .recover data encryptedPayload
  | .available rc id => .available rc id
  | .rlock rc id start => .rlock rc id start
  | .copy rc id start => .copy rc id start
  | .runlock rc id start keys => .runlock rc id start (keys.elems h)
  | .loop rc id start keys _ => .loop rc id start (keys.elems h)
  | .returned rc id start stop r => .returned rc id start stop r
  | .recovered data encryptedPayload start stop r => .recovered data encryptedPayload start stop r

/-- The state of the value model that the slice model is in. -/
def Sys.abs (s : Sys) : Plainkey.Sys :=
  ⟨⟨s.platformKeys.elems s.heap⟩, s.mu, s.threads.map (Phase.abs s.heap), s.hist⟩

/-- The slices whose elements a goroutine reads or hands on: the argument of its write call, the
store its `append` extends, and a reader's copy. -/
def Phase.views : Phase → List Slice
  | .lock op | .wait op | .unlock op | .wrote op => [op.keys]
  | .assign keys | .appendRead keys => [keys]
  | .appendCopy keys old _ _ => [keys, old]
  | .runlock _ _ _ keys | .loop _ _ _ keys _ => [keys]
  | _ => []

/-- The regions a goroutine will store into: the spare capacity of the slice a
`SetPlatformKeys` call will assign, and the array an `append` that grew is filling. -/
def Phase.frees : Phase → List Region
  | .lock (.set b) | .wait (.set b) | .assign b => [b.tail]
  | .appendCopy keys old dst _ => if old.len + keys.len ≤ old.cap then [] else [dst.whole]
  | _ => []

theorem Op.abs_congr {h h' : Heap} {op : Op} (hv : op.keys.elems h' = op.keys.elems h) :
    op.abs h' = op.abs h := by
  cases op <;> simp only [Op.abs, Op.keys] at hv ⊢ <;> rw [hv]

theorem Phase.abs_congr {h h' : Heap} {p : Phase} (hv : ∀ v ∈ p.views, v.elems h' = v.elems h) :
    p.abs h' = p.abs h := by
  have h₁ : ∀ {v : Slice} {vs : List Slice}, v ∈ v :: vs := List.mem_cons_self _ _
  cases p with
  | lock op | wait op | unlock op | wrote op => simp only [Phase.abs, Op.abs_congr (hv _ h₁)]
  | assign keys | appendRead keys | runlock _ _ _ keys | loop _ _ _ keys _ =>
    simp only [Phase.abs, hv keys h₁]
  | appendCopy keys old _ _ =>
    simp only [Phase.abs, hv keys h₁, hv old (List.mem_cons_of_mem _ h₁)]
  | _ => rfl

section Abs

variable {s : Sys} {i : Nat} {p q : Phase}

theorem Sys.abs_getElem? (s : Sys) (i : Nat) :
    s.abs.threads[i]? = s.threads[i]?.map (Phase.abs s.heap) :=
  List.getElem?_map _ _ _

theorem Sys.abs_moveTo (s : Sys) (i : Nat) (q : Phase) (mu : RWMutex) :
    ({ s.moveTo i q with mu := mu } : Sys).abs =
      { s.abs.moveTo i (q.abs s.heap) with mu := mu } := by
  simp [Sys.abs, Sys.moveTo, Plainkey.Sys.moveTo, List.map_set]

theorem Sys.abs_moveTo' (s : Sys) (i : Nat) (q : Phase) :
    (s.moveTo i q).abs = s.abs.moveTo i (q.abs s.heap) :=
  Sys.abs_moveTo s i q s.mu

theorem Sys.abs_getElem?_of (hi : s.threads[i]? = some p) :
    s.abs.threads[i]? = some (p.abs s.heap) := by
  rw [Sys.abs_getElem?, hi]; rfl

theorem Sys.abs_moveTo_same (hi : s.threads[i]? = some p) (hq : q.abs s.heap = p.abs s.heap) :
    (s.moveTo i q).abs = s.abs := by
  rw [Sys.abs_moveTo', hq]
  simp only [Sys.abs, Plainkey.Sys.moveTo, Plainkey.Sys.mk.injEq, and_true, true_and]
  apply List.ext_getElem?
  intro j
  rw [List.getElem?_set, List.getElem?_map]
  split
  · subst_vars; simp [hi, (List.getElem?_eq_some.1 hi).1]
  · rfl

theorem map_abs_congr {h h' : Heap} {ts : List Phase}
    (hv : ∀ (j : Nat) p v, ts[j]? = some p → v ∈ p.views → v.elems h' = v.elems h) :
    ts.map (Phase.abs h') = ts.map (Phase.abs h) := by
  apply List.map_congr_left
  intro p hp
  obtain ⟨j, hj⟩ := List.mem_iff_getElem?.1 hp
  exact Phase.abs_congr (hv j p · hj)

end Abs

/-! ## The layout -/

def Holds (ts : List Phase) (v : Slice) : Prop :=
  ∃ (j : Nat) (p : Phase), ts[j]? = some p ∧ v ∈ p.views

def Frees (ts : List Phase) (j : Nat) (r : Region) : Prop := ∃ p, ts[j]? = some p ∧ r ∈ p.frees

/-- Where the stores go: no free region meets a published one or another goroutine's, and every
slice lies in its array. -/
structure Layout (heap : Heap) (P : Slice) (ts : List Phase) : Prop where
  wf : P.WF heap
  viewWF : ∀ v, Holds ts v → v.WF heap
  freeWF : ∀ j r, Frees ts j r → r.hi ≤ (heap.array r.arr).length
  viewTail : ∀ v, Holds ts v → v.range.Disjoint P.tail
  viewFree : ∀ v j r, Holds ts v → Frees ts j r → v.range.Disjoint r
  rangeFree : ∀ j r, Frees ts j r → P.range.Disjoint r
  tailFree : ∀ j r, Frees ts j r → P.tail.Disjoint r
  freeFree : ∀ j j' r r', j ≠ j' → Frees ts j r → Frees ts j' r' → r.Disjoint r'

section Layout

variable {heap heap' : Heap} {P : Slice} {ts : List Phase} {i : Nat} {p q : Phase}

theorem Holds.set (hi : ts[i]? = some p) {v : Slice} (h : Holds (ts.set i q) v) :
    Holds ts v ∨ v ∈ q.views := by
  obtain ⟨j, p', hj, hv⟩ := h
  rw [getElem?_set_of_getElem? hi] at hj
  split at hj
  · cases hj; exact .inr hv
  · exact .inl ⟨j, p', hj, hv⟩

theorem Holds.of_mem (hi : ts[i]? = some p) {v : Slice} (hv : v ∈ p.views) : Holds ts v :=
  ⟨i, p, hi, hv⟩

theorem Frees.set (hi : ts[i]? = some p) {j : Nat} {r : Region} (h : Frees (ts.set i q) j r) :
    (j ≠ i ∧ Frees ts j r) ∨ (j = i ∧ r ∈ q.frees) := by
  obtain ⟨p', hj, hr⟩ := h
  rw [getElem?_set_of_getElem? hi] at hj
  split at hj
  · cases hj; exact .inr ⟨by omega, hr⟩
  · exact .inl ⟨Ne.symm ‹_›, p', hj, hr⟩

theorem Frees.of_mem (hi : ts[i]? = some p) {r : Region} (hr : r ∈ p.frees) : Frees ts i r :=
  ⟨p, hi, hr⟩

theorem Layout.move (hl : Layout heap P ts) (hi : ts[i]? = some p)
    (hv : q.views ⊆ p.views) (hf : q.frees ⊆ p.frees) : Layout heap P (ts.set i q) := by
  have hH : ∀ v, Holds (ts.set i q) v → Holds ts v := fun v h =>
    (h.set hi).elim id fun h => .of_mem hi (hv h)
  have hF : ∀ j r, Frees (ts.set i q) j r → Frees ts j r := fun j r h =>
    (h.set hi).elim (·.2) fun ⟨hj, h⟩ => hj ▸ .of_mem hi (hf h)
  exact ⟨hl.wf, fun v h => hl.viewWF v (hH v h), fun j r h => hl.freeWF j r (hF j r h),
    fun v h => hl.viewTail v (hH v h), fun v j r h h' => hl.viewFree v j r (hH v h) (hF j r h'),
    fun j r h => hl.rangeFree j r (hF j r h), fun j r h => hl.tailFree j r (hF j r h),
    fun j j' r r' hne h h' => hl.freeFree j j' r r' hne (hF j r h) (hF j' r' h')⟩

theorem Layout.view_le (hl : Layout heap P ts) (hi : ts[i]? = some p) {v : Slice}
    (hv : v ∈ p.views) : v.off + v.len ≤ (heap.array v.arr).length := by
  obtain ⟨h₁, h₂⟩ := hl.viewWF v (.of_mem hi hv)
  omega

theorem Layout.of_length_le (hl : Layout heap P ts)
    (hlen : ∀ a, (heap.array a).length ≤ (heap'.array a).length) : Layout heap' P ts where
  wf := ⟨hl.wf.1, hl.wf.2.trans (hlen _)⟩
  viewWF v h := ⟨(hl.viewWF v h).1, (hl.viewWF v h).2.trans (hlen _)⟩
  freeWF j r h := (hl.freeWF j r h).trans (hlen _)
  viewTail := hl.viewTail
  viewFree := hl.viewFree
  rangeFree := hl.rangeFree
  tailFree := hl.tailFree
  freeFree := hl.freeFree

theorem Layout.hold (hl : Layout heap P ts) (hi : ts[i]? = some p)
    (hv : ∀ v ∈ q.views, v ∈ p.views ∨ v = P) (hf : q.frees = []) :
    Layout heap P (ts.set i q) := by
  have hH : ∀ v, Holds (ts.set i q) v → Holds ts v ∨ v = P := fun v h =>
    (h.set hi).elim .inl fun h => (hv v h).imp_left (.of_mem hi)
  have hF : ∀ j r, Frees (ts.set i q) j r → Frees ts j r := fun j r h =>
    (h.set hi).elim (·.2) fun ⟨_, h⟩ => by simp [hf] at h
  refine ⟨hl.wf, fun v h => ?_, fun j r h => hl.freeWF j r (hF j r h), fun v h => ?_,
    fun v j r h h' => ?_, fun j r h => hl.rangeFree j r (hF j r h),
    fun j r h => hl.tailFree j r (hF j r h),
    fun j j' r r' hne h h' => hl.freeFree j j' r r' hne (hF j r h) (hF j' r' h')⟩
  · rcases hH v h with h | rfl
    exacts [hl.viewWF v h, hl.wf]
  · rcases hH v h with h | rfl
    exacts [hl.viewTail v h, v.range_disjoint_tail]
  · rcases hH v h with h | rfl
    exacts [hl.viewFree v j r h (hF j r h'), hl.rangeFree j r (hF j r h')]

theorem Layout.assign {b : Slice} (hl : Layout heap P ts) (hi : ts[i]? = some (.assign b)) :
    Layout heap b (ts.set i (.unlock (.set b))) := by
  have hb : Holds ts b := .of_mem hi (List.mem_singleton_self b)
  have hbt : Frees ts i b.tail := .of_mem hi (List.mem_singleton_self _)
  have hH : ∀ v, Holds (ts.set i (.unlock (.set b))) v → Holds ts v := fun v h =>
    (h.set hi).elim id fun h => .of_mem hi h
  have hF : ∀ j r, Frees (ts.set i (.unlock (.set b))) j r → j ≠ i ∧ Frees ts j r := fun j r h =>
    (h.set hi).elim id fun ⟨_, h⟩ => by simp [Phase.frees] at h
  exact ⟨hl.viewWF b hb, fun v h => hl.viewWF v (hH v h),
    fun j r h => hl.freeWF j r (hF j r h).2, fun v h => hl.viewFree v i b.tail (hH v h) hbt,
    fun v j r h h' => hl.viewFree v j r (hH v h) (hF j r h').2,
    fun j r h => hl.viewFree b j r hb (hF j r h).2,
    fun j r h => hl.freeFree i j _ r (Ne.symm (hF j r h).1) hbt (hF j r h).2,
    fun j j' r r' hne h h' => hl.freeFree j j' r r' hne (hF j r h).2 (hF j' r' h').2⟩

theorem Region.disjoint_fresh {r : Region} (hr : r.hi ≤ (heap.array r.arr).length)
    (lo hi : Nat) : r.Disjoint ⟨heap.length, lo, hi⟩ := by
  by_cases ha : r.arr = heap.length
  · have : heap.array heap.length = [] := by simp [Heap.array, List.getD_eq_getElem?_getD]
    rw [ha, this] at hr
    exact .inr (.inr (.inr (.inl (by simp at hr; omega))))
  · exact .inl ha

theorem length_array_alloc_le (x : List Bytes) (a : Nat) :
    (heap.array a).length ≤ ((heap ++ [x]).array a).length := by
  rw [Heap.array_alloc]
  split
  · subst_vars; simp [Heap.array, List.getD_eq_getElem?_getD]
  · exact le_rfl

theorem Layout.alloc {keys : Slice} {c : Nat} (hl : Layout heap P ts)
    (hi : ts[i]? = some (.appendRead keys)) (hc : ¬P.len + keys.len ≤ P.cap)
    (hcap : P.len + keys.len ≤ c) :
    Layout (heap ++ [P.elems heap ++ List.replicate (c - P.len) []]) P
      (ts.set i (.appendCopy keys P ⟨heap.length, 0, P.len + keys.len, c⟩ 0)) := by
  set x := P.elems heap ++ List.replicate (c - P.len) []
  set d : Slice := ⟨heap.length, 0, P.len + keys.len, c⟩
  obtain ⟨hP₁, hP₂⟩ := hl.wf
  have hx : x.length = c := by
    simp only [x, List.length_append, List.length_replicate,
      Slice.length_elems (show P.off + P.len ≤ (heap.array P.arr).length by omega)]
    omega
  have hlen : ∀ a, (heap.array a).length ≤ ((heap ++ [x]).array a).length :=
    length_array_alloc_le x
  have hH : ∀ v, Holds (ts.set i (.appendCopy keys P d 0)) v → Holds ts v ∨ v = P := fun v h =>
    (h.set hi).elim .inl fun h => by
      simp only [Phase.views, List.mem_cons, List.mem_singleton, List.not_mem_nil, or_false] at h
      exact h.imp (fun e => .of_mem hi (by simp [Phase.views, e])) id
  have hin : ∀ v, Holds (ts.set i (.appendCopy keys P d 0)) v → v.WF heap := fun v h =>
    (hH v h).elim (hl.viewWF v) fun e => e ▸ ⟨hP₁, hP₂⟩
  have hF : ∀ j r, Frees (ts.set i (.appendCopy keys P d 0)) j r →
      (j ≠ i ∧ Frees ts j r) ∨ (j = i ∧ r = d.whole) := fun j r h =>
    (h.set hi).imp_right fun ⟨hj, h⟩ => ⟨hj, by simpa [Phase.frees, hc] using h⟩
  have hfresh : ∀ r : Region, r.hi ≤ (heap.array r.arr).length → r.Disjoint d.whole :=
    fun r hr => Region.disjoint_fresh hr 0 (0 + c)
  refine ⟨⟨hP₁, hP₂.trans (hlen _)⟩, fun v h => ⟨(hin v h).1, (hin v h).2.trans (hlen _)⟩,
    fun j r h => ?_, fun v h => ?_, fun v j r h h' => ?_, fun j r h => ?_, fun j r h => ?_,
    fun j j' r r' hne h h' => ?_⟩
  · rcases hF j r h with ⟨-, h⟩ | ⟨-, rfl⟩
    · exact (hl.freeWF j r h).trans (hlen _)
    · simp [d, Slice.whole, Heap.array_alloc, hx]
  · exact (hH v h).elim (hl.viewTail v) fun e => e ▸ v.range_disjoint_tail
  · rcases hF j r h' with ⟨-, h'⟩ | ⟨-, rfl⟩
    · exact (hH v h).elim (hl.viewFree v j r · h') fun e => e ▸ hl.rangeFree j r h'
    · have := hin v h
      exact hfresh v.range (by unfold Slice.WF at this; simp only [Slice.range]; omega)
  · rcases hF j r h with ⟨-, h⟩ | ⟨-, rfl⟩
    exacts [hl.rangeFree j r h, hfresh P.range (by simp only [Slice.range]; omega)]
  · rcases hF j r h with ⟨-, h⟩ | ⟨-, rfl⟩
    exacts [hl.tailFree j r h, hfresh P.tail (by simp only [Slice.tail]; omega)]
  · rcases hF j r h with ⟨-, h⟩ | ⟨hj, rfl⟩ <;> rcases hF j' r' h' with ⟨-, h'⟩ | ⟨hj', rfl⟩
    · exact hl.freeFree j j' r r' hne h h'
    · exact hfresh r (hl.freeWF j r h)
    · exact (hfresh r' (hl.freeWF j' r' h')).symm
    · exact absurd (hj.trans hj'.symm) hne

theorem Layout.appendRead {keys : Slice} (g : Grow) (hl : Layout heap P ts)
    (hi : ts[i]? = some (.appendRead keys)) :
    Layout (appendAlloc g heap P keys.len).1 P
      (ts.set i (.appendCopy keys P (appendAlloc g heap P keys.len).2 0)) := by
  unfold appendAlloc
  split
  · exact hl.hold hi (by simp [Phase.views]) (if_pos ‹_›)
  · exact hl.alloc hi ‹_› (g.le_cap _ _)

theorem Layout.store {keys dst : Slice} {k : Nat} (hl : Layout heap P ts)
    (hi : ts[i]? = some (.appendCopy keys P dst k)) (hd : dst.WF heap)
    (hlen : dst.len = P.len + keys.len)
    (hin : P.len + keys.len ≤ P.cap → dst.arr = P.arr ∧ dst.off = P.off ∧ dst.cap = P.cap) :
    Layout heap dst (ts.set i (.unlock (.add keys))) := by
  have hH : ∀ v, Holds (ts.set i (.unlock (.add keys))) v → Holds ts v := fun v h =>
    (h.set hi).elim id fun h => .of_mem hi (by simp_all [Phase.views, Op.keys])
  have hF : ∀ j r, Frees (ts.set i (.unlock (.add keys))) j r → j ≠ i ∧ Frees ts j r :=
    fun j r h => (h.set hi).elim id fun ⟨_, h⟩ => by simp [Phase.frees] at h
  have hm : Layout heap P (ts.set i (.unlock (.add keys))) :=
    hl.move hi (by simp [Phase.views, Op.keys]) (by simp [Phase.frees])
  have hd₁ := hd.1
  by_cases hc : P.len + keys.len ≤ P.cap
  · obtain ⟨ha, ho, hcap⟩ := hin hc
    have htail : dst.tail.Sub P.tail := by
      simp only [Region.Sub, Slice.tail]
      omega
    refine ⟨hd, hm.viewWF, hm.freeWF, fun v h => (hl.viewTail v (hH v h)).mono (.refl _) htail,
      hm.viewFree, fun j r h => ?_,
      fun j r h => (hl.tailFree j r (hF j r h).2).mono htail (.refl _),
      hm.freeFree⟩
    obtain ⟨-, h⟩ := hF j r h
    refine (Slice.whole_disjoint (hl.rangeFree j r h) (hl.tailFree j r h)).mono ?_
      (.refl _)
    simp only [Region.Sub, Slice.range, Slice.whole]
    omega
  · have hw : Frees ts i dst.whole := .of_mem hi (by simp [Phase.frees, hc])
    have hfree : ∀ j r, Frees (ts.set i (.unlock (.add keys))) j r → dst.whole.Disjoint r :=
      fun j r h => hl.freeFree i j _ r (Ne.symm (hF j r h).1) hw (hF j r h).2
    exact ⟨hd, hm.viewWF, hm.freeWF,
      fun v h => (hl.viewFree v i _ (hH v h) hw).mono (.refl _) (Slice.tail_sub_whole _),
      hm.viewFree, fun j r h => (hfree j r h).mono (Slice.range_sub_whole hd₁) (.refl _),
      fun j r h => (hfree j r h).mono (Slice.tail_sub_whole _) (.refl _), hm.freeFree⟩

end Layout

/-! ## Each goroutine -/

/-- What a goroutine's locals say about the heap. An `append` has copied the store it read into
`dst`, then the elements it has copied so far, and extends the store in place exactly when the
store has room; the loop has passed only elements that do not match. -/
def PhaseOk (env : Env) (heap : Heap) (P : Slice) : Phase → Prop
  | .appendCopy keys old dst k =>
    old = P ∧ k ≤ keys.len ∧ dst.len = old.len + keys.len ∧ dst.WF heap ∧
      (dst.elems heap).take (old.len + k) = old.elems heap ++ (keys.elems heap).take k ∧
      (old.len + keys.len ≤ old.cap → dst.arr = old.arr ∧ dst.off = old.off ∧ dst.cap = old.cap)
  | .loop _ id _ keys k =>
    k ≤ keys.len ∧ getPlatformKey.loop env id (keys.elems heap) =
      getPlatformKey.loop env id ((keys.elems heap).drop k)
  | _ => True

theorem PhaseOk.frame {env : Env} {heap heap' : Heap} {P P' : Slice} {p : Phase}
    (hc : ∀ keys old dst k, p ≠ .appendCopy keys old dst k)
    (hv : ∀ v ∈ p.views, v.elems heap' = v.elems heap) (hp : PhaseOk env heap P p) :
    PhaseOk env heap' P' p := by
  cases p with
  | appendCopy keys old dst k => exact absurd rfl (hc keys old dst k)
  | loop rc id start keys k =>
    simp only [PhaseOk, hv keys (List.mem_singleton_self _)] at hp ⊢
    exact hp
  | _ => trivial

theorem loop_drop (env : Env) (id : PlatformKeyId) {heap : Heap} {keys : Slice} {k : Nat}
    (hk : k < keys.len) (hw : keys.off + keys.len ≤ (heap.array keys.arr).length) :
    getPlatformKey.loop env id ((keys.elems heap).drop k) =
      (loopStep env id (heap.get keys.arr (keys.off + k))).getD
        (getPlatformKey.loop env id ((keys.elems heap).drop (k + 1))) := by
  have hl : k < (keys.elems heap).length := by rw [Slice.length_elems hw]; exact hk
  have hget := Slice.get_eq_getElem hk hw
  rw [List.getElem?_eq_getElem hl, Option.some.injEq] at hget
  rw [List.drop_eq_getElem_cons hl, getPlatformKey_loop_cons, hget]

/-- Every slice a `SetPlatformKeys` or `AddPlatformKeys` call is passed lies inside its array,
and the slices of two different write calls, of either kind, share no array unless one of them
has capacity zero. -/
structure NoAlias (heap : Heap) (calls : List Call) : Prop where
  wf : ∀ (j : Nat) op, calls[j]? = some (.write op) → op.keys.WF heap
  distinct : ∀ (j j' : Nat) op op', j ≠ j' → calls[j]? = some (.write op) →
    calls[j']? = some (.write op') → 0 < op.keys.cap → 0 < op'.keys.cap →
    op.keys.arr ≠ op'.keys.arr

def writes (calls : List Call) : List (Nat × Slice) :=
  calls.enum.filterMap fun
    | (j, .write op) => some (j, op.keys)
    | _ => none

/-- `NoAlias` as a check. -/
def noAlias (heap : Heap) (calls : List Call) : Bool :=
  (writes calls).all (fun w => decide (w.2.WF heap)) &&
    (writes calls).all fun w => (writes calls).all fun w' =>
      decide (w.1 = w'.1 ∨ w.2.cap = 0 ∨ w'.2.cap = 0 ∨ w.2.arr ≠ w'.2.arr)

theorem mem_writes {calls : List Call} {j : Nat} {op : Op} (h : calls[j]? = some (.write op)) :
    (j, op.keys) ∈ writes calls :=
  List.mem_filterMap.2 ⟨(j, .write op), List.mem_enum_iff_getElem?.2 h, rfl⟩

theorem NoAlias.of_check {heap : Heap} {calls : List Call} (h : noAlias heap calls = true) :
    NoAlias heap calls := by
  simp only [noAlias, Bool.and_eq_true, List.all_eq_true, decide_eq_true_eq] at h
  refine ⟨fun j op hj => h.1 _ (mem_writes hj), fun j j' op op' hne hj hj' hc hc' => ?_⟩
  have := h.2 _ (mem_writes hj) _ (mem_writes hj')
  dsimp only at this
  omega

/-! Without `NoAlias` the layout fails. Two `SetPlatformKeys` calls are passed `a[:2]` and `a[:1]`
of one array `a` (`aliasedCalls`), and a reader copies the first. After the second, an
`AddPlatformKeys(b...)` is about to append in place into `a[1]` while the reader is at `a[1]` of
its snapshot (`aliasedReading`); the store changes the snapshot (`aliasedCopied`), and the reader
returns the new key (`aliasedReturned`). -/

def aliasedHeap : Heap := [[[1], [2]], [[3]]]

def aliasedCalls : List Call :=
  [.write (.set ⟨0, 0, 2, 2⟩), .get ⟨5, [9], [3, 9]⟩, .write (.set ⟨0, 0, 1, 2⟩),
    .write (.add ⟨1, 0, 1, 1⟩)]

def aliasedReading : Sys :=
  ⟨aliasedHeap, ⟨0, 0, 1, 2⟩, ⟨true, 0⟩,
    [.wrote (.set ⟨0, 0, 2, 2⟩), .loop none ⟨5, [9], [3, 9]⟩ 1 ⟨0, 0, 2, 2⟩ 1,
      .wrote (.set ⟨0, 0, 1, 2⟩), .appendCopy ⟨1, 0, 1, 1⟩ ⟨0, 0, 1, 2⟩ ⟨0, 0, 2, 2⟩ 0],
    [(0, .set [[1], [2]]), (2, .set [[1]])]⟩

def aliasedCopied : Sys :=
  ⟨[[[1], [3]], [[3]]], ⟨0, 0, 1, 2⟩, ⟨true, 0⟩,
    [.wrote (.set ⟨0, 0, 2, 2⟩), .loop none ⟨5, [9], [3, 9]⟩ 1 ⟨0, 0, 2, 2⟩ 1,
      .wrote (.set ⟨0, 0, 1, 2⟩), .appendCopy ⟨1, 0, 1, 1⟩ ⟨0, 0, 1, 2⟩ ⟨0, 0, 2, 2⟩ 1],
    [(0, .set [[1], [2]]), (2, .set [[1]])]⟩

def aliasedReturned : Sys :=
  ⟨[[[1], [3]], [[3]]], ⟨0, 0, 1, 2⟩, ⟨true, 0⟩,
    [.wrote (.set ⟨0, 0, 2, 2⟩), .returned none ⟨5, [9], [3, 9]⟩ 1 2 (.ok [3]),
      .wrote (.set ⟨0, 0, 1, 2⟩), .appendCopy ⟨1, 0, 1, 1⟩ ⟨0, 0, 1, 2⟩ ⟨0, 0, 2, 2⟩ 1],
    [(0, .set [[1], [2]]), (2, .set [[1]])]⟩

theorem not_noAlias_aliased : ¬NoAlias aliasedHeap aliasedCalls :=
  fun hn => hn.distinct 0 2 _ _ (by decide) rfl rfl (by decide) (by decide) rfl

/-- Without `NoAlias` a reader's snapshot changes under it: `append` in place stores into the
element the reader loads next. -/
theorem reachable_race_of_aliased :
    ¬NoAlias aliasedHeap aliasedCalls ∧
    Reachable Reference.env .exact aliasedHeap aliasedCalls aliasedReading ∧
    aliasedReading.threads[3]? = some (.appendCopy ⟨1, 0, 1, 1⟩ ⟨0, 0, 1, 2⟩ ⟨0, 0, 2, 2⟩ 0) ∧
    aliasedReading.threads[1]? = some (.loop none ⟨5, [9], [3, 9]⟩ 1 ⟨0, 0, 2, 2⟩ 1) ∧
    (0, 1) ∈ (Phase.appendCopy ⟨1, 0, 1, 1⟩ ⟨0, 0, 1, 2⟩ ⟨0, 0, 2, 2⟩ 0).stores ∧
    (0, 1) ∈ (Phase.loop none ⟨5, [9], [3, 9]⟩ 1 ⟨0, 0, 2, 2⟩ 1).loads
      aliasedReading.platformKeys ∧
    Step Reference.env .exact aliasedReading 3 aliasedCopied ∧
    (⟨0, 0, 2, 2⟩ : Slice).elems aliasedCopied.heap ≠
      (⟨0, 0, 2, 2⟩ : Slice).elems aliasedReading.heap :=
  ⟨not_noAlias_aliased, ⟨[0, 0, 0, 0, 1, 1, 1, 1, 1, 2, 2, 2, 2, 3, 3, 3], rfl⟩, rfl, rfl,
    List.mem_singleton_self _, List.mem_singleton_self _, step_sound rfl, by decide⟩

/-- ... and the reader then returns a key that `getPlatformKey` returns on no store between its
call and its return: over aliased slices `getPlatformKey` is not linearizable. -/
theorem reachable_get_of_aliased :
    ¬NoAlias aliasedHeap aliasedCalls ∧
    Reachable Reference.env .exact aliasedHeap aliasedCalls aliasedReturned ∧
    aliasedReturned.threads[1]? = some (.returned none ⟨5, [9], [3, 9]⟩ 1 2 (.ok [3])) ∧
    ¬∃ n, 1 ≤ n ∧ n ≤ 2 ∧ Go.ok [3] = getPlatformKey Reference.env
      (run ((aliasedReturned.hist.map Prod.snd).take n) .init) ⟨5, [9], [3, 9]⟩ :=
  ⟨not_noAlias_aliased, ⟨[0, 0, 0, 0, 1, 1, 1, 1, 1, 2, 2, 2, 2, 3, 3, 3, 3, 1], rfl⟩, rfl,
    fun ⟨n, h₁, h₂, h⟩ => by
      obtain rfl | rfl : n = 1 ∨ n = 2 := by omega
      all_goals exact absurd h (by decide)⟩

theorem Sys.abs_update (s : Sys) (i : Nat) (q : Phase) (P : Slice)
    (hist : List (Nat × Plainkey.Op)) :
    ({ s.moveTo i q with platformKeys := P, hist := hist } : Sys).abs =
      { s.abs.moveTo i (q.abs s.heap) with store := ⟨P.elems s.heap⟩, hist := hist } := by
  simp [Sys.abs, Sys.moveTo, Plainkey.Sys.moveTo, List.map_set]

theorem Sys.abs_heap (s : Sys) {heap : Heap}
    (hv : ∀ v, Holds s.threads v → v.elems heap = v.elems s.heap)
    (hP : s.platformKeys.elems heap = s.platformKeys.elems s.heap) :
    ({ s with heap := heap } : Sys).abs = s.abs := by
  simp only [Sys.abs, hP, Plainkey.Sys.mk.injEq, true_and, and_true]
  exact map_abs_congr fun j p v hj hv' => hv v ⟨j, p, hj, hv'⟩

theorem elems_appendAlloc (g : Grow) (heap : Heap) (P : Slice) (n : Nat) {v : Slice}
    (hv : v.WF heap) : v.elems (appendAlloc g heap P n).1 = v.elems heap := by
  unfold appendAlloc
  split
  · rfl
  · exact Slice.elems_alloc _ (by have := hv.1; have := hv.2; omega)

theorem appendAlloc_spec (g : Grow) (heap : Heap) {P : Slice} (n : Nat) (hP : P.WF heap) :
    (appendAlloc g heap P n).2.len = P.len + n ∧
    (appendAlloc g heap P n).2.WF (appendAlloc g heap P n).1 ∧
    ((appendAlloc g heap P n).2.elems (appendAlloc g heap P n).1).take P.len = P.elems heap ∧
    (P.len + n ≤ P.cap → (appendAlloc g heap P n).2.arr = P.arr ∧
      (appendAlloc g heap P n).2.off = P.off ∧ (appendAlloc g heap P n).2.cap = P.cap) := by
  obtain ⟨hP₁, hP₂⟩ := hP
  have hlen : (P.elems heap).length = P.len := Slice.length_elems (by omega)
  unfold appendAlloc
  split
  · refine ⟨rfl, ⟨‹_›, hP₂⟩, ?_, fun _ => ⟨rfl, rfl, rfl⟩⟩
    rw [Slice.elems_take]
    congr
    simp
  · have := g.le_cap P.cap (P.len + n)
    refine ⟨rfl, ⟨this, ?_⟩, ?_, fun h => absurd h ‹_›⟩
    · simp [Heap.array_alloc, hlen]
      omega
    · simp only [Slice.elems, Heap.array_alloc, if_pos, List.drop_zero, List.take_take]
      rw [Nat.min_eq_left (by omega)]
      exact List.take_left' hlen

theorem Layout.store_free {heap : Heap} {P keys dst : Slice} {ts : List Phase} {i k : Nat}
    (hl : Layout heap P ts) (hi : ts[i]? = some (.appendCopy keys P dst k)) (hk : k < keys.len)
    (hlen : dst.len = P.len + keys.len) (hd : dst.WF heap)
    (hin : P.len + keys.len ≤ P.cap → dst.arr = P.arr ∧ dst.off = P.off ∧ dst.cap = P.cap) :
    (∀ v, Holds ts v → v.range.Disjoint ⟨dst.arr, dst.off + P.len + k, dst.off + P.len + k + 1⟩) ∧
      P.range.Disjoint ⟨dst.arr, dst.off + P.len + k, dst.off + P.len + k + 1⟩ := by
  have hd₁ := hd.1
  by_cases hc : P.len + keys.len ≤ P.cap
  · obtain ⟨ha, ho, hcap⟩ := hin hc
    have hpos : Region.Sub ⟨dst.arr, dst.off + P.len + k, dst.off + P.len + k + 1⟩ P.tail := by
      simp only [Region.Sub, Slice.tail]
      omega
    refine ⟨fun v h => (hl.viewTail v h).mono (.refl _) hpos, ?_⟩
    simp only [Region.Disjoint, Slice.range]
    omega
  · have hw : Frees ts i dst.whole := .of_mem hi (by simp [Phase.frees, hc])
    have hpos : Region.Sub ⟨dst.arr, dst.off + P.len + k, dst.off + P.len + k + 1⟩ dst.whole := by
      simp only [Region.Sub, Slice.whole, true_and]
      omega
    exact ⟨fun v h => (hl.viewFree v i _ h hw).mono (.refl _) hpos,
      (hl.rangeFree i _ hw).mono (.refl _) hpos⟩

/-- The invariant of the slice model: its abstraction is a reachable state of the value model,
the stores keep to their regions, and each goroutine's locals agree with the heap. -/
structure Inv (env : Env) (heap₀ : Heap) (calls : List Call) (s : Sys) : Prop where
  abs : Plainkey.Reachable env (calls.map (Call.abs heap₀)) s.abs
  layout : Layout s.heap s.platformKeys s.threads
  phase : ∀ (j : Nat) p, s.threads[j]? = some p → PhaseOk env s.heap s.platformKeys p

section Inv

variable {env : Env} {g : Grow} {heap₀ : Heap} {calls : List Call} {s s' : Sys} {i : Nat}
  {p q : Phase}

theorem Inv.writer_unique (hI : Inv env heap₀ calls s) (hi : s.threads[i]? = some p)
    (hp : (p.abs s.heap).holdsLock = true) {j : Nat} (hj : s.threads[j]? = some q)
    (hq : (q.abs s.heap).holdsLock = true) : j = i :=
  (Plainkey.reachable_inv hI.abs).lock.unique (Sys.abs_getElem?_of hi) hp
    (Sys.abs_getElem?_of hj) hq

theorem Inv.phase_others {heap' : Heap} {P' : Slice} (hI : Inv env heap₀ calls s)
    (hi : s.threads[i]? = some p) (hp : (p.abs s.heap).holdsLock = true)
    (hv : ∀ v, Holds s.threads v → v.elems heap' = v.elems s.heap) (hq : PhaseOk env heap' P' q) :
    ∀ (j : Nat) p', (s.threads.set i q)[j]? = some p' → PhaseOk env heap' P' p' :=
  forall_set hi (fun j p' hj hp' => (hI.phase j p' hp').frame
    (fun _ _ _ _ e => hj (hI.writer_unique hi hp hp' (by rw [e]; rfl)))
    (fun v hv' => hv v (.of_mem hp' hv'))) hq

theorem Inv.advance (hI : Inv env heap₀ calls s) (hs : Plainkey.Step env s.abs i s'.abs)
    (hl : Layout s'.heap s'.platformKeys s'.threads)
    (hq : ∀ (j : Nat) p, s'.threads[j]? = some p → PhaseOk env s'.heap s'.platformKeys p) :
    (s'.abs = s.abs ∨ Plainkey.Step env s.abs i s'.abs) ∧ Inv env heap₀ calls s' :=
  ⟨.inr hs, hI.abs.of_step hs, hl, hq⟩

theorem Inv.stutter (hI : Inv env heap₀ calls s) (he : s'.abs = s.abs)
    (hl : Layout s'.heap s'.platformKeys s'.threads)
    (hq : ∀ (j : Nat) p, s'.threads[j]? = some p → PhaseOk env s'.heap s'.platformKeys p) :
    (s'.abs = s.abs ∨ Plainkey.Step env s.abs i s'.abs) ∧ Inv env heap₀ calls s' :=
  ⟨.inl he, he ▸ hI.abs, hl, hq⟩

theorem Inv.phase_set (hI : Inv env heap₀ calls s) (hi : s.threads[i]? = some p)
    (hq : PhaseOk env s.heap s.platformKeys q) :
    ∀ (j : Nat) p', (s.threads.set i q)[j]? = some p' → PhaseOk env s.heap s.platformKeys p' :=
  forall_set hi (fun j p _ hp => hI.phase j p hp) hq

theorem Inv.frame (hI : Inv env heap₀ calls s) (h : Step env g s i s') :
    (∀ v, Holds s.threads v → v.elems s'.heap = v.elems s.heap) ∧
      s.platformKeys.elems s'.heap = s.platformKeys.elems s.heap := by
  cases h with
  | appendRead hp =>
    exact ⟨fun v h => elems_appendAlloc g _ _ _ (hI.layout.viewWF v h),
      elems_appendAlloc g _ _ _ hI.layout.wf⟩
  | appendCopy hp hk =>
    obtain ⟨rfl, -, hlen, hd, -, hin⟩ := hI.phase i _ hp
    obtain ⟨hfv, hfP⟩ := hI.layout.store_free hp hk hlen hd hin
    exact ⟨fun v h => Slice.elems_write _ (hfv v h), Slice.elems_write _ hfP⟩
  | _ => exact ⟨fun _ _ => rfl, rfl⟩

/-- Every step keeps the invariant, and is the same goroutine's step of the value model or
leaves the abstraction unchanged: the copy of one element inside `append`, and a loop iteration
that does not match, are the two that the value model does not see. -/
theorem Inv.step (hI : Inv env heap₀ calls s) (h : Step env g s i s') :
    (s'.abs = s.abs ∨ Plainkey.Step env s.abs i s'.abs) ∧ Inv env heap₀ calls s' := by
  have hl := hI.layout
  obtain ⟨hv, hPv⟩ := hI.frame h
  cases h with
  | lock hp hw =>
    exact hI.advance (by rw [Sys.abs_moveTo]; exact .lock (Sys.abs_getElem?_of hp) hw)
      (hl.move hp (List.Subset.refl _) (by cases ‹Op› <;> exact List.Subset.refl _))
      (hI.phase_set hp trivial)
  | enterSet hp hr =>
    exact hI.advance (by rw [Sys.abs_moveTo']; exact .enterSet (Sys.abs_getElem?_of hp) hr)
      (hl.move hp (List.Subset.refl _) (List.Subset.refl _)) (hI.phase_set hp trivial)
  | enterAdd hp hr =>
    exact hI.advance (by rw [Sys.abs_moveTo']; exact .enterAdd (Sys.abs_getElem?_of hp) hr)
      (hl.move hp (List.Subset.refl _) (List.nil_subset _)) (hI.phase_set hp trivial)
  | assign hp =>
    exact hI.advance (by rw [Sys.abs_update]; exact .assign (Sys.abs_getElem?_of hp))
      (hl.assign hp) (hI.phase_others hp rfl (fun _ _ => rfl) trivial)
  | @appendRead keys hp =>
    obtain ⟨hlen, hd, htake, hin⟩ := appendAlloc_spec g s.heap keys.len hl.wf
    refine hI.advance ?_ (hl.appendRead g hp) (hI.phase_others hp rfl hv
      ⟨rfl, Nat.zero_le _, hlen, hd, ?_, hin⟩)
    · rw [Sys.abs_heap (s.moveTo i _) (fun v h => ?_) hPv, Sys.abs_moveTo']
      · exact .appendRead (Sys.abs_getElem?_of hp)
      · refine (h.set hp).elim (hv v) fun h => ?_
        simp only [Phase.views, List.mem_cons, List.mem_singleton, List.not_mem_nil,
          or_false] at h
        rcases h with rfl | rfl
        exacts [hv v (.of_mem hp (List.mem_singleton_self _)), hPv]
    · rw [Nat.add_zero, List.take_zero, List.append_nil, htake, hPv]
  | @appendCopy keys old dst k hp hk =>
    obtain ⟨rfl, -, hlen, hd, htake, hin⟩ := hI.phase i _ hp
    have hkeys := hv keys (.of_mem hp (List.mem_cons_self _ _))
    have hkw := hl.view_le hp (List.mem_cons_self _ _)
    refine hI.stutter ?_ ((hl.of_length_le fun a => (Heap.length_array_write ..).ge).move hp
      (List.Subset.refl _) (List.Subset.refl _))
      (hI.phase_others hp rfl hv ⟨rfl, hk, hlen, ⟨hd.1, by simpa using hd.2⟩, ?_, hin⟩)
    · rw [Sys.abs_heap (s.moveTo i (.appendCopy keys s.platformKeys dst (k + 1)))
        (fun w h => (h.set hp).elim (hv w) fun h => hv w (.of_mem hp h)) hPv]
      exact Sys.abs_moveTo_same hp rfl
    · rw [hPv, hkeys, ← Nat.add_assoc, Nat.add_assoc dst.off,
        Slice.elems_take_write _ (by omega) (by have := hd.1; have := hd.2; omega), htake,
        List.take_succ, ← Slice.get_eq_getElem hk hkw, List.append_assoc]
      rfl
  | @appendStore keys old dst k hp hk =>
    obtain ⟨rfl, hk', hlen, hd, htake, hin⟩ := hI.phase i _ hp
    obtain rfl : k = keys.len := by omega
    rw [← hlen,
      List.take_of_length_le (Slice.length_elems (by have := hd.1; have := hd.2; omega)).le,
      List.take_of_length_le (Slice.length_elems (hl.view_le hp (List.mem_cons_self _ _))).le]
      at htake
    exact hI.advance (by rw [Sys.abs_update, htake]; exact .appendWrite (Sys.abs_getElem?_of hp))
      (hl.store hp hd hlen hin) (hI.phase_others hp rfl (fun _ _ => rfl) trivial)
  | unlock hp =>
    exact hI.advance (by rw [Sys.abs_moveTo]; exact .unlock (Sys.abs_getElem?_of hp))
      (hl.move hp (List.Subset.refl _) (List.Subset.refl _)) (hI.phase_set hp trivial)
  | recoverStart hp hpre =>
    exact hI.advance (by rw [Sys.abs_moveTo']; exact .recoverStart (Sys.abs_getElem?_of hp) hpre)
      (hl.move hp (List.nil_subset _) (List.nil_subset _)) (hI.phase_set hp trivial)
  | recoverFail hp hpre =>
    exact hI.advance (by rw [Sys.abs_moveTo']; exact .recoverFail (Sys.abs_getElem?_of hp) hpre)
      (hl.move hp (List.nil_subset _) (List.nil_subset _)) (hI.phase_set hp trivial)
  | unavailable hp ha =>
    exact hI.advance (by rw [Sys.abs_moveTo']; exact .unavailable (Sys.abs_getElem?_of hp) ha)
      (hl.move hp (List.nil_subset _) (List.nil_subset _)) (hI.phase_set hp trivial)
  | available hp ha =>
    exact hI.advance (by rw [Sys.abs_moveTo']; exact .available (Sys.abs_getElem?_of hp) ha)
      (hl.move hp (List.nil_subset _) (List.nil_subset _)) (hI.phase_set hp trivial)
  | rlock hp hw =>
    exact hI.advance (by rw [Sys.abs_moveTo]; exact .rlock (Sys.abs_getElem?_of hp) hw)
      (hl.move hp (List.nil_subset _) (List.nil_subset _)) (hI.phase_set hp trivial)
  | copy hp =>
    exact hI.advance (by rw [Sys.abs_moveTo']; exact .copy (Sys.abs_getElem?_of hp))
      (hl.hold hp (fun _ h => .inr (List.mem_singleton.1 h)) rfl) (hI.phase_set hp trivial)
  | runlock hp =>
    exact hI.advance (by rw [Sys.abs_moveTo]; exact .runlock (Sys.abs_getElem?_of hp))
      (hl.move hp (List.Subset.refl _) (List.nil_subset _)) (hI.phase_set hp ⟨Nat.zero_le _, rfl⟩)
  | @loopNext rc id start keys k hp hk hstep =>
    obtain ⟨-, hloop⟩ := hI.phase i _ hp
    exact hI.stutter (Sys.abs_moveTo_same hp rfl)
      (hl.move hp (List.Subset.refl _) (List.nil_subset _)) (hI.phase_set hp ⟨hk,
        by rw [hloop, loop_drop env id hk (hl.view_le hp (List.mem_singleton_self _)), hstep]; rfl⟩)
  | @loopFound rc id start keys k r hp hk hstep =>
    obtain ⟨-, hloop⟩ := hI.phase i _ hp
    have e : r = getPlatformKey.loop env id (keys.elems s.heap) := by
      rw [hloop, loop_drop env id hk (hl.view_le hp (List.mem_singleton_self _)), hstep]; rfl
    exact hI.advance (by rw [Sys.abs_moveTo', e]; exact .loop (Sys.abs_getElem?_of hp))
      (hl.move hp (List.nil_subset _) (List.nil_subset _)) (hI.phase_set hp trivial)
  | @loopEnd rc id start keys k hp hk =>
    obtain ⟨hk', hloop⟩ := hI.phase i _ hp
    have e : getPlatformKey.loop env id (keys.elems s.heap) = .err (.new "no key available") := by
      rw [hloop, List.drop_eq_nil_of_le (by
        rw [Slice.length_elems (hl.view_le hp (List.mem_singleton_self _))]; omega)]
      rfl
    exact hI.advance (by rw [Sys.abs_moveTo', ← e]; exact .loop (Sys.abs_getElem?_of hp))
      (hl.move hp (List.nil_subset _) (List.nil_subset _)) (hI.phase_set hp trivial)
  | recoverEnd hp =>
    exact hI.advance (by rw [Sys.abs_moveTo']; exact .recoverEnd (Sys.abs_getElem?_of hp))
      (hl.move hp (List.nil_subset _) (List.nil_subset _)) (hI.phase_set hp trivial)

end Inv

/-! ## The initial state -/

section Init

variable {heap : Heap} {calls : List Call}

theorem Sys.abs_init (heap : Heap) (calls : List Call) :
    (Sys.init heap calls).abs = Plainkey.Sys.init (calls.map (Call.abs heap)) := by
  have hc : ∀ c : Call, c.start.abs heap = (c.abs heap).start := fun c => by cases c <;> rfl
  simp only [Sys.abs, Sys.init, Plainkey.Sys.init, List.map_map, Function.comp_def, hc]
  rfl

theorem holds_start {v : Slice} (h : Holds (calls.map Call.start) v) :
    ∃ (j : Nat) (op : Op), calls[j]? = some (.write op) ∧ v = op.keys := by
  obtain ⟨j, p, hj, hv⟩ := h
  obtain ⟨c, hc, rfl⟩ := Option.map_eq_some'.1 (List.getElem?_map _ _ _ ▸ hj)
  cases c <;> simp only [Call.start, Phase.views, List.mem_singleton, List.not_mem_nil] at hv
  exact ⟨j, _, hc, hv⟩

theorem frees_start {j : Nat} {r : Region} (h : Frees (calls.map Call.start) j r) :
    ∃ b, calls[j]? = some (.write (.set b)) ∧ r = b.tail := by
  obtain ⟨p, hj, hr⟩ := h
  obtain ⟨c, hc, rfl⟩ := Option.map_eq_some'.1 (List.getElem?_map _ _ _ ▸ hj)
  rcases c with (b | b) | _ | _ <;>
    simp only [Call.start, Phase.frees, List.mem_singleton, List.not_mem_nil] at hr
  exact ⟨b, hc, hr⟩

theorem NoAlias.disjoint (hn : NoAlias heap calls) {j j' : Nat} {op op' : Op} (hne : j ≠ j')
    (hj : calls[j]? = some (.write op)) (hj' : calls[j']? = some (.write op')) :
    op.keys.whole.Disjoint op'.keys.whole := by
  by_cases h : 0 < op.keys.cap ∧ 0 < op'.keys.cap
  · exact .inl (hn.distinct j j' op op' hne hj hj' h.1 h.2)
  · simp only [Region.Disjoint, Slice.whole]
    omega

theorem Layout.init (hn : NoAlias heap calls) : Layout heap .nil (calls.map Call.start) := by
  refine ⟨⟨le_rfl, Nat.zero_le _⟩, fun v h => ?_, fun j r h => ?_, fun v _ => ?_,
    fun v j r h h' => ?_, fun j r _ => ?_, fun j r _ => ?_, fun j j' r r' hne h h' => ?_⟩
  · obtain ⟨j, op, hj, rfl⟩ := holds_start h
    exact hn.wf j op hj
  · obtain ⟨b, hb, rfl⟩ := frees_start h
    exact (hn.wf j _ hb).2
  · simp only [Region.Disjoint, Slice.tail, Slice.nil]
    omega
  · obtain ⟨j₁, op, hj₁, rfl⟩ := holds_start h
    obtain ⟨b, hb, rfl⟩ := frees_start h'
    by_cases hj : j₁ = j
    · subst hj
      rw [hj₁] at hb
      cases hb
      exact b.range_disjoint_tail
    · exact (hn.disjoint hj hj₁ hb).mono (Slice.range_sub_whole (hn.wf _ _ hj₁).1)
        (Slice.tail_sub_whole b)
  · simp only [Region.Disjoint, Slice.range, Slice.nil]
    omega
  · simp only [Region.Disjoint, Slice.tail, Slice.nil]
    omega
  · obtain ⟨b, hb, rfl⟩ := frees_start h
    obtain ⟨b', hb', rfl⟩ := frees_start h'
    exact (hn.disjoint hne hb hb').mono (Slice.tail_sub_whole b) (Slice.tail_sub_whole b')

theorem Inv.init {env : Env} (hn : NoAlias heap calls) :
    Inv env heap calls (Sys.init heap calls) where
  abs := ⟨[], by rw [Sys.abs_init]; rfl⟩
  layout := .init hn
  phase j p hj := by
    obtain ⟨c, -, rfl⟩ := Option.map_eq_some'.1 (List.getElem?_map _ _ _ ▸ hj)
    cases c <;> trivial

theorem Reachable.inv {env : Env} {g : Grow} {s : Sys} (hn : NoAlias heap calls)
    (h : Reachable env g heap calls s) : Inv env heap calls s :=
  h.induction (.init hn) fun _ _ _ hI hs => (hI.step hs).2

/-- A run of the slice model is, read as lists, a run of the value model: the steps the value
model does not see drop out. -/
theorem Inv.exec_abs {env : Env} {g : Grow} {s s' : Sys} {sched : List Nat}
    (hI : Inv env heap calls s) (he : exec env g s sched = some s') :
    ∃ sched', Plainkey.exec env s.abs sched' = some s'.abs := by
  induction sched generalizing s with
  | nil => cases he; exact ⟨[], rfl⟩
  | cons i sched ih =>
    obtain ⟨s₁, h₁, he⟩ := Option.bind_eq_some.1 he
    obtain ⟨hab, hI₁⟩ := hI.step (step_sound h₁)
    obtain ⟨sched', he'⟩ := ih hI₁ he
    rcases hab with hab | hab
    · exact ⟨sched', hab ▸ he'⟩
    · exact ⟨i :: sched', by simp only [Plainkey.exec, hab.step_eq, Option.some_bind, he']⟩

end Init

/-! ## What the code with its slices does -/

section Results

variable {env : Env} {g : Grow} {heap₀ : Heap} {calls : List Call} {s s' : Sys} {i j : Nat}
  {p q : Phase}

/-! The witnesses below run one scenario over an array `a` with room for two keys and an array
`b` of one key (`inPlaceHeap`). `SetPlatformKeys` is passed `a[:1]` and returns (`inPlaceSet`); a
reader copies the store and enters its loop while an `AddPlatformKeys(b...)` is about to copy its
key into `a[1]` in place (`inPlaceReading`), and does (`inPlaceCopied`); a `RecoverKeys` call
recovers a payload sealed for the key in `a[0]`, and every call returns (`inPlaceDone`). -/

def inPlaceHeap : Heap := [[[1], []], [[3]]]

def inPlaceData : PlatformKeyData :=
  ⟨1, Reference.marshalKeyData ⟨1, ⟨5, [9], [1, 9]⟩, List.replicate 17 7⟩, 5, 0⟩

def inPlacePayload : Bytes :=
  Reference.gcmSeal (Reference.env.deriveAESKey [1] (List.replicate 16 7)) [7] [42]
    (Reference.encodeInt 1 ++ Reference.encodeInt 1 ++ Reference.encodeNat 5 ++ [0])

def inPlaceCalls : List Call :=
  [.write (.set ⟨0, 0, 1, 2⟩), .get ⟨5, [9], [1, 9]⟩, .write (.add ⟨1, 0, 1, 1⟩),
    .recover inPlaceData inPlacePayload]

def inPlaceSet : Sys :=
  ⟨inPlaceHeap, ⟨0, 0, 1, 2⟩, ⟨false, 0⟩,
    [.wrote (.set ⟨0, 0, 1, 2⟩), .available none ⟨5, [9], [1, 9]⟩, .lock (.add ⟨1, 0, 1, 1⟩),
      .recover inPlaceData inPlacePayload],
    [(0, .set [[1]])]⟩

def inPlaceReading : Sys :=
  ⟨inPlaceHeap, ⟨0, 0, 1, 2⟩, ⟨true, 0⟩,
    [.wrote (.set ⟨0, 0, 1, 2⟩), .loop none ⟨5, [9], [1, 9]⟩ 1 ⟨0, 0, 1, 2⟩ 0,
      .appendCopy ⟨1, 0, 1, 1⟩ ⟨0, 0, 1, 2⟩ ⟨0, 0, 2, 2⟩ 0, .recover inPlaceData inPlacePayload],
    [(0, .set [[1]])]⟩

def inPlaceCopied : Sys :=
  ⟨[[[1], [3]], [[3]]], ⟨0, 0, 1, 2⟩, ⟨true, 0⟩,
    [.wrote (.set ⟨0, 0, 1, 2⟩), .loop none ⟨5, [9], [1, 9]⟩ 1 ⟨0, 0, 1, 2⟩ 0,
      .appendCopy ⟨1, 0, 1, 1⟩ ⟨0, 0, 1, 2⟩ ⟨0, 0, 2, 2⟩ 1, .recover inPlaceData inPlacePayload],
    [(0, .set [[1]])]⟩

def inPlaceDone : Sys :=
  ⟨[[[1], [3]], [[3]]], ⟨0, 0, 2, 2⟩, ⟨false, 0⟩,
    [.wrote (.set ⟨0, 0, 1, 2⟩), .returned none ⟨5, [9], [1, 9]⟩ 1 2 (.ok [1]),
      .wrote (.add ⟨1, 0, 1, 1⟩), .recovered inPlaceData inPlacePayload 2 2 (.ok [42])],
    [(0, .set [[1]]), (2, .add [[3]])]⟩

theorem noAlias_inPlace : NoAlias inPlaceHeap inPlaceCalls := .of_check rfl

theorem reachable_inPlaceSet : Reachable Reference.env .exact inPlaceHeap inPlaceCalls inPlaceSet :=
  ⟨[0, 0, 0, 0], rfl⟩

theorem exec_inPlaceSet :
    exec Reference.env .exact inPlaceSet [1, 1, 1, 1, 2, 2, 2, 2, 2, 2, 1, 3, 3, 3, 3, 3, 3, 3] =
      some inPlaceDone :=
  rfl

theorem reachable_inPlaceReading :
    Reachable Reference.env .exact inPlaceHeap inPlaceCalls inPlaceReading :=
  ⟨[0, 0, 0, 0, 1, 1, 1, 1, 2, 2, 2], rfl⟩

theorem step_inPlaceCopied : Step Reference.env .exact inPlaceReading 2 inPlaceCopied :=
  step_sound rfl

theorem reachable_inPlaceDone :
    Reachable Reference.env .exact inPlaceHeap inPlaceCalls inPlaceDone :=
  reachable_inPlaceSet.of_exec exec_inPlaceSet

theorem step_abs (hn : NoAlias heap₀ calls) (h : Reachable env g heap₀ calls s)
    (hs : Step env g s i s') : s'.abs = s.abs ∨ Plainkey.Step env s.abs i s'.abs :=
  ((h.inv hn).step hs).1

theorem step_abs_inPlace :
    NoAlias inPlaceHeap inPlaceCalls ∧
    Reachable Reference.env .exact inPlaceHeap inPlaceCalls inPlaceReading ∧
    Step Reference.env .exact inPlaceReading 2 inPlaceCopied ∧
    (inPlaceCopied.abs = inPlaceReading.abs ∨
      Plainkey.Step Reference.env inPlaceReading.abs 2 inPlaceCopied.abs) :=
  ⟨noAlias_inPlace, reachable_inPlaceReading, step_inPlaceCopied,
    step_abs noAlias_inPlace reachable_inPlaceReading step_inPlaceCopied⟩

theorem reachable_abs (hn : NoAlias heap₀ calls) (h : Reachable env g heap₀ calls s) :
    Plainkey.Reachable env (calls.map (Call.abs heap₀)) s.abs :=
  (h.inv hn).abs

theorem reachable_abs_inPlace :
    NoAlias inPlaceHeap inPlaceCalls ∧
    Reachable Reference.env .exact inPlaceHeap inPlaceCalls inPlaceReading ∧
    Plainkey.Reachable Reference.env (inPlaceCalls.map (Call.abs inPlaceHeap))
      inPlaceReading.abs :=
  ⟨noAlias_inPlace, reachable_inPlaceReading,
    reachable_abs noAlias_inPlace reachable_inPlaceReading⟩

theorem reachable_views_stable (hn : NoAlias heap₀ calls) (h : Reachable env g heap₀ calls s)
    (hs : Step env g s i s') (hj : s.threads[j]? = some p) {v : Slice} (hv : v ∈ p.views) :
    v.elems s'.heap = v.elems s.heap ∧
      s.platformKeys.elems s'.heap = s.platformKeys.elems s.heap :=
  have hf := (h.inv hn).frame hs
  ⟨hf.1 v (.of_mem hj hv), hf.2⟩

theorem reachable_views_stable_inPlace :
    NoAlias inPlaceHeap inPlaceCalls ∧
    Reachable Reference.env .exact inPlaceHeap inPlaceCalls inPlaceReading ∧
    Step Reference.env .exact inPlaceReading 2 inPlaceCopied ∧
    (Phase.appendCopy ⟨1, 0, 1, 1⟩ ⟨0, 0, 1, 2⟩ ⟨0, 0, 2, 2⟩ 0).stores = [(0, 1)] ∧
    inPlaceReading.threads[1]? = some (.loop none ⟨5, [9], [1, 9]⟩ 1 ⟨0, 0, 1, 2⟩ 0) ∧
    (⟨0, 0, 1, 2⟩ : Slice) ∈ (Phase.loop none ⟨5, [9], [1, 9]⟩ 1 ⟨0, 0, 1, 2⟩ 0).views ∧
    ((⟨0, 0, 1, 2⟩ : Slice).elems inPlaceCopied.heap =
        (⟨0, 0, 1, 2⟩ : Slice).elems inPlaceReading.heap ∧
      inPlaceReading.platformKeys.elems inPlaceCopied.heap =
        inPlaceReading.platformKeys.elems inPlaceReading.heap) :=
  ⟨noAlias_inPlace, reachable_inPlaceReading, step_inPlaceCopied, rfl, rfl,
    List.mem_singleton_self _,
    @reachable_views_stable _ _ _ _ _ _ _ 1 _ noAlias_inPlace reachable_inPlaceReading
      step_inPlaceCopied rfl _ (List.mem_singleton_self _)⟩

theorem reachable_heap_race_free (hn : NoAlias heap₀ calls) (h : Reachable env g heap₀ calls s)
    (hi : s.threads[i]? = some p) (hj : s.threads[j]? = some q) (hji : j ≠ i) {x : Nat × Nat}
    (hx : x ∈ p.stores) : x ∉ q.loads s.platformKeys ∧ x ∉ q.stores := by
  have hI := h.inv hn
  obtain ⟨keys, old, dst, k, rfl, hk, rfl⟩ := Phase.mem_stores hx
  obtain ⟨rfl, -, hlen, hd, -, hin⟩ := hI.phase i _ hi
  -- the goroutine inside `append` has the writer's place, which no other goroutine has
  have hw : ∀ q : Phase, s.threads[j]? = some q → (q.abs s.heap).holdsLock = true → False :=
    fun q hj hq => hji (hI.writer_unique hi rfl hj hq)
  refine ⟨fun hl => ?_, fun hs => ?_⟩
  · rcases Phase.mem_loads hl with ⟨_, rfl⟩ | ⟨_, _, _, _, rfl⟩ | ⟨_, _, _, keys', k', rfl, hk', he⟩
    · exact hw _ hj rfl
    · exact hw _ hj rfl
    · have h₁ := (hI.layout.store_free hi hk hlen hd hin).1 keys'
        (.of_mem hj (List.mem_singleton_self _))
      simp only [Region.Disjoint, Slice.range, Prod.mk.injEq] at h₁ he
      omega
  · obtain ⟨_, _, _, _, rfl, -⟩ := Phase.mem_stores hs
    exact hw _ hj rfl

theorem reachable_heap_race_free_inPlace :
    NoAlias inPlaceHeap inPlaceCalls ∧
    Reachable Reference.env .exact inPlaceHeap inPlaceCalls inPlaceReading ∧
    inPlaceReading.threads[2]? = some (.appendCopy ⟨1, 0, 1, 1⟩ ⟨0, 0, 1, 2⟩ ⟨0, 0, 2, 2⟩ 0) ∧
    inPlaceReading.threads[1]? = some (.loop none ⟨5, [9], [1, 9]⟩ 1 ⟨0, 0, 1, 2⟩ 0) ∧
    (1 : Nat) ≠ 2 ∧ (0, 1) ∈ (Phase.appendCopy ⟨1, 0, 1, 1⟩ ⟨0, 0, 1, 2⟩ ⟨0, 0, 2, 2⟩ 0).stores ∧
    ((0, 1) ∉ (Phase.loop none ⟨5, [9], [1, 9]⟩ 1 ⟨0, 0, 1, 2⟩ 0).loads
        inPlaceReading.platformKeys ∧
      (0, 1) ∉ (Phase.loop none ⟨5, [9], [1, 9]⟩ 1 ⟨0, 0, 1, 2⟩ 0).stores) :=
  ⟨noAlias_inPlace, reachable_inPlaceReading, rfl, rfl, by decide, List.mem_singleton_self _,
    @reachable_heap_race_free _ _ _ _ _ 2 1 _ _ noAlias_inPlace reachable_inPlaceReading rfl rfl
      (by decide) _ (List.mem_singleton_self _)⟩

/-- The elements of the store are those the recorded `SetPlatformKeys` and `AddPlatformKeys`
calls build, in the order they took the lock. -/
theorem reachable_store_elems (hn : NoAlias heap₀ calls) (h : Reachable env g heap₀ calls s) :
    s.platformKeys.elems s.heap = (run (s.hist.map Prod.snd) .init).platformKeys :=
  congrArg State.platformKeys (Plainkey.reachable_inv (h.inv hn).abs).data.store

theorem reachable_store_elems_inPlace :
    NoAlias inPlaceHeap inPlaceCalls ∧
    Reachable Reference.env .exact inPlaceHeap inPlaceCalls inPlaceDone ∧
    inPlaceDone.platformKeys.elems inPlaceDone.heap =
      (run (inPlaceDone.hist.map Prod.snd) .init).platformKeys :=
  ⟨noAlias_inPlace, reachable_inPlaceDone,
    reachable_store_elems noAlias_inPlace reachable_inPlaceDone⟩

/-- A `getPlatformKey` call over the slices returns what `getPlatformKey` returns on the store
after some prefix of the recorded calls, between its call and its return. -/
theorem reachable_get_linearizable {rc : Option Recovery} {id : PlatformKeyId} {start stop : Nat}
    {r : Go Bytes} (hn : NoAlias heap₀ calls) (h : Reachable env g heap₀ calls s)
    (hi : s.threads[i]? = some (.returned rc id start stop r)) :
    stop ≤ s.hist.length ∧ ∃ n, start ≤ n ∧ n ≤ stop ∧
      r = getPlatformKey env (run ((s.hist.map Prod.snd).take n) .init) id :=
  Plainkey.reachable_get (h.inv hn).abs (Sys.abs_getElem?_of hi)

theorem reachable_get_linearizable_inPlace :
    NoAlias inPlaceHeap inPlaceCalls ∧
    Reachable Reference.env .exact inPlaceHeap inPlaceCalls inPlaceDone ∧
    inPlaceDone.threads[1]? = some (.returned none ⟨5, [9], [1, 9]⟩ 1 2 (.ok [1])) ∧
    (2 ≤ inPlaceDone.hist.length ∧ ∃ n, 1 ≤ n ∧ n ≤ 2 ∧ Go.ok [1] = getPlatformKey Reference.env
      (run ((inPlaceDone.hist.map Prod.snd).take n) .init) ⟨5, [9], [1, 9]⟩) :=
  ⟨noAlias_inPlace, reachable_inPlaceDone, rfl,
    @reachable_get_linearizable _ _ _ _ _ 1 _ _ _ _ _ noAlias_inPlace reachable_inPlaceDone rfl⟩

theorem reachable_recover_linearizable {data : PlatformKeyData} {encryptedPayload : Bytes}
    {start stop : Nat} {r : Go Bytes} (hn : NoAlias heap₀ calls)
    (h : Reachable env g heap₀ calls s)
    (hi : s.threads[i]? = some (.recovered data encryptedPayload start stop r)) :
    stop ≤ s.hist.length ∧ ∃ n, start ≤ n ∧ n ≤ stop ∧
      r = recoverKeys env (run ((s.hist.map Prod.snd).take n) .init) data encryptedPayload :=
  Plainkey.reachable_recover (h.inv hn).abs (Sys.abs_getElem?_of hi)

theorem reachable_recover_linearizable_inPlace :
    NoAlias inPlaceHeap inPlaceCalls ∧
    Reachable Reference.env .exact inPlaceHeap inPlaceCalls inPlaceDone ∧
    inPlaceDone.threads[3]? = some (.recovered inPlaceData inPlacePayload 2 2 (.ok [42])) ∧
    (2 ≤ inPlaceDone.hist.length ∧ ∃ n, 2 ≤ n ∧ n ≤ 2 ∧ Go.ok [42] = recoverKeys Reference.env
      (run ((inPlaceDone.hist.map Prod.snd).take n) .init) inPlaceData inPlacePayload) :=
  ⟨noAlias_inPlace, reachable_inPlaceDone, rfl,
    @reachable_recover_linearizable _ _ _ _ _ 3 _ _ _ _ _ noAlias_inPlace reachable_inPlaceDone
      rfl⟩

/-- The ordering guarantee of spec §5 over the slices: a `getPlatformKey` call that begins after a
write call has returned answers on a store that holds that call's assignment. -/
theorem reachable_get_after_write {op : Op} {rc : Option Recovery} {id : PlatformKeyId}
    {sched : List Nat} {start stop : Nat} {r : Go Bytes} (hn : NoAlias heap₀ calls)
    (h : Reachable env g heap₀ calls s) (hj : s.threads[j]? = some (.wrote op))
    (hi : s.threads[i]? = some (.available rc id)) (he : exec env g s sched = some s')
    (hr : s'.threads[i]? = some (.returned rc id start stop r)) :
    ∃ n, start ≤ n ∧ n ≤ stop ∧ (j, op.abs s.heap) ∈ s'.hist.take n ∧
      r = getPlatformKey env (run ((s'.hist.map Prod.snd).take n) .init) id :=
  have hI := h.inv hn
  have ⟨_, he'⟩ := hI.exec_abs he
  get_after_write hI.abs (Sys.abs_getElem?_of hj) (Sys.abs_getElem?_of hi) he'
    (Sys.abs_getElem?_of hr)

theorem reachable_get_after_write_inPlace :
    NoAlias inPlaceHeap inPlaceCalls ∧
    Reachable Reference.env .exact inPlaceHeap inPlaceCalls inPlaceSet ∧
    inPlaceSet.threads[0]? = some (.wrote (.set ⟨0, 0, 1, 2⟩)) ∧
    inPlaceSet.threads[1]? = some (.available none ⟨5, [9], [1, 9]⟩) ∧
    exec Reference.env .exact inPlaceSet [1, 1, 1, 1, 2, 2, 2, 2, 2, 2, 1, 3, 3, 3, 3, 3, 3, 3] =
      some inPlaceDone ∧
    inPlaceDone.threads[1]? = some (.returned none ⟨5, [9], [1, 9]⟩ 1 2 (.ok [1])) ∧
    ∃ n, 1 ≤ n ∧ n ≤ 2 ∧ (0, (Op.set ⟨0, 0, 1, 2⟩).abs inPlaceSet.heap) ∈ inPlaceDone.hist.take n ∧
      Go.ok [1] = getPlatformKey Reference.env
        (run ((inPlaceDone.hist.map Prod.snd).take n) .init) ⟨5, [9], [1, 9]⟩ :=
  have hj : inPlaceSet.threads[0]? = some (.wrote (.set ⟨0, 0, 1, 2⟩)) := rfl
  have hi : inPlaceSet.threads[1]? = some (.available none ⟨5, [9], [1, 9]⟩) := rfl
  have hr : inPlaceDone.threads[1]? = some (.returned none ⟨5, [9], [1, 9]⟩ 1 2 (.ok [1])) := rfl
  ⟨noAlias_inPlace, reachable_inPlaceSet, hj, hi, exec_inPlaceSet, hr,
    reachable_get_after_write noAlias_inPlace reachable_inPlaceSet hj hi exec_inPlaceSet hr⟩

theorem reachable_recover_after_write {op : Op} {data : PlatformKeyData}
    {encryptedPayload : Bytes} {sched : List Nat} {start stop : Nat} {r : Go Bytes}
    (hn : NoAlias heap₀ calls) (h : Reachable env g heap₀ calls s)
    (hj : s.threads[j]? = some (.wrote op))
    (hi : s.threads[i]? = some (.recover data encryptedPayload))
    (he : exec env g s sched = some s')
    (hr : s'.threads[i]? = some (.recovered data encryptedPayload start stop r)) :
    ∃ n, start ≤ n ∧ n ≤ stop ∧ (j, op.abs s.heap) ∈ s'.hist.take n ∧
      r = recoverKeys env (run ((s'.hist.map Prod.snd).take n) .init) data encryptedPayload :=
  have hI := h.inv hn
  have ⟨_, he'⟩ := hI.exec_abs he
  recover_after_write hI.abs (Sys.abs_getElem?_of hj) (Sys.abs_getElem?_of hi) he'
    (Sys.abs_getElem?_of hr)

theorem reachable_recover_after_write_inPlace :
    NoAlias inPlaceHeap inPlaceCalls ∧
    Reachable Reference.env .exact inPlaceHeap inPlaceCalls inPlaceSet ∧
    inPlaceSet.threads[0]? = some (.wrote (.set ⟨0, 0, 1, 2⟩)) ∧
    inPlaceSet.threads[3]? = some (.recover inPlaceData inPlacePayload) ∧
    exec Reference.env .exact inPlaceSet [1, 1, 1, 1, 2, 2, 2, 2, 2, 2, 1, 3, 3, 3, 3, 3, 3, 3] =
      some inPlaceDone ∧
    inPlaceDone.threads[3]? = some (.recovered inPlaceData inPlacePayload 2 2 (.ok [42])) ∧
    ∃ n, 2 ≤ n ∧ n ≤ 2 ∧ (0, (Op.set ⟨0, 0, 1, 2⟩).abs inPlaceSet.heap) ∈ inPlaceDone.hist.take n ∧
      Go.ok [42] = recoverKeys Reference.env
        (run ((inPlaceDone.hist.map Prod.snd).take n) .init) inPlaceData inPlacePayload :=
  have hj : inPlaceSet.threads[0]? = some (.wrote (.set ⟨0, 0, 1, 2⟩)) := rfl
  have hi : inPlaceSet.threads[3]? = some (.recover inPlaceData inPlacePayload) := rfl
  have hr : inPlaceDone.threads[3]? =
      some (.recovered inPlaceData inPlacePayload 2 2 (.ok [42])) := rfl
  ⟨noAlias_inPlace, reachable_inPlaceSet, hj, hi, exec_inPlaceSet, hr,
    reachable_recover_after_write noAlias_inPlace reachable_inPlaceSet hj hi exec_inPlaceSet hr⟩

/-- `append` never stores into the slice it copies from: the element it copies next lands outside
its argument. So copying element by element, as `stepAt` does, gives what Go's `memmove` gives. -/
theorem reachable_copy_disjoint {keys old dst : Slice} {k : Nat} (hn : NoAlias heap₀ calls)
    (h : Reachable env g heap₀ calls s) (hi : s.threads[i]? = some (.appendCopy keys old dst k))
    (hk : k < keys.len) :
    ∀ t < keys.len, (dst.arr, dst.off + old.len + k) ≠ (keys.arr, keys.off + t) := by
  have hI := h.inv hn
  obtain ⟨rfl, -, hlen, hd, -, hin⟩ := hI.phase i _ hi
  have hkeys := (hI.layout.store_free hi hk hlen hd hin).1 keys
    (.of_mem hi (List.mem_cons_self _ _))
  intro t ht he
  simp only [Region.Disjoint, Slice.range, Prod.mk.injEq] at hkeys he
  omega

theorem reachable_copy_disjoint_inPlace :
    NoAlias inPlaceHeap inPlaceCalls ∧
    Reachable Reference.env .exact inPlaceHeap inPlaceCalls inPlaceReading ∧
    inPlaceReading.threads[2]? = some (.appendCopy ⟨1, 0, 1, 1⟩ ⟨0, 0, 1, 2⟩ ⟨0, 0, 2, 2⟩ 0) ∧
    ∀ t < 1, ((0 : Nat), 0 + 1 + 0) ≠ (1, 0 + t) :=
  have hi : inPlaceReading.threads[2]? =
      some (.appendCopy ⟨1, 0, 1, 1⟩ ⟨0, 0, 1, 2⟩ ⟨0, 0, 2, 2⟩ 0) := rfl
  ⟨noAlias_inPlace, reachable_inPlaceReading, hi,
    reachable_copy_disjoint noAlias_inPlace reachable_inPlaceReading hi (by decide)⟩

end Results

end Mem
end Plainkey
