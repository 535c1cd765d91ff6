import Plainkey.Interleave
import Plainkey.Slice

/-!
# Plainkey.Memory

The goroutines of `Plainkey.Interleave` over the heap of `Plainkey.Slice`. `platformKeys` is a
slice header, the write calls are passed slices, and a reader's `keys := platformKeys` copies the
header, so that the copy shares the store's array. Two steps the value model takes at once are
spread out here as the runtime performs them: `append` copies its elements into the array one
store at a time after `appendAlloc`, and the loop of `getPlatformKey` loads one element of the
copy per iteration, with no lock held. The copy reads each element of `keys` after the stores
before it; Go's `append` copies with `memmove`, and the two differ only for a `keys` that
overlaps the elements being stored into, which `NoAlias` of `Plainkey.Refine` rules out
(`Mem.reachable_copy_disjoint`).

The ghost history and the `start` and `stop` of each `getPlatformKey` call are kept as in the
value model; no step reads them.

* `getPlatformKey_loop_cons`: the loop of `getPlatformKey` is `loopStep` on each element in turn.
* `step_sound`: every step is one of the transitions of `Step`.
-/

namespace Plainkey
namespace Mem

inductive Op where
  | set (keys : Slice)
  | add (keys : Slice)
deriving DecidableEq, Repr

def Op.keys : Op → Slice
  | .set keys | .add keys => keys

inductive Call where
  | write (op : Op)
  | get (id : PlatformKeyId)
  | recover (data : PlatformKeyData) (encryptedPayload : Bytes)
deriving DecidableEq, Repr

/-- Where a goroutine is in its call; as `Plainkey.Phase`, with slices for lists. `appendCopy keys
old dst k`: `append` returns `dst` and has copied `k` elements of `keys` into it after those of
`old`. `loop ... keys k`: the loop over the copy `keys`, before element `k`. -/
inductive Phase where
  | lock (op : Op)
  | wait (op : Op)
  | assign (keys : Slice)
  | appendRead (keys : Slice)
  | appendCopy (keys old dst : Slice) (k : Nat)
  | unlock (op : Op)
  | wrote (op : Op)
  | recover (data : PlatformKeyData) (encryptedPayload : Bytes)
  | available (rc : Option Recovery) (id : PlatformKeyId)
  | rlock (rc : Option Recovery) (id : PlatformKeyId) (start : Nat)
  | copy (rc : Option Recovery) (id : PlatformKeyId) (start : Nat)
  | runlock (rc : Option Recovery) (id : PlatformKeyId) (start : Nat) (keys : Slice)
  | loop (rc : Option Recovery) (id : PlatformKeyId) (start : Nat) (keys : Slice) (k : Nat)
  | returned (rc : Option Recovery) (id : PlatformKeyId) (start stop : Nat) (r : Go Bytes)
  | recovered (data : PlatformKeyData) (encryptedPayload : Bytes) (start stop : Nat)
      (r : Go Bytes)
deriving DecidableEq, Repr

def Phase.done : Phase → Bool
  | .wrote _ | .returned none _ _ _ _ | .recovered _ _ _ _ _ => true
  | _ => false

def Call.start : Call → Phase
  | .write op => .lock op
  | .get id => .available none id
  | .recover data encryptedPayload => .recover data encryptedPayload

/-- The heap, the store's header, the mutex, the goroutines, and the ghost history. -/
structure Sys where
  heap : Heap
  platformKeys : Slice
  mu : RWMutex
  threads : List Phase
  hist : List (Nat × Plainkey.Op)
deriving DecidableEq, Repr

def Sys.init (heap : Heap) (calls : List Call) : Sys :=
  ⟨heap, .nil, ⟨false, 0⟩, calls.map Call.start, []⟩

def Sys.moveTo (s : Sys) (i : Nat) (p : Phase) : Sys := { s with threads := s.threads.set i p }

@[simp] theorem Sys.moveTo_heap (s : Sys) (i : Nat) (p : Phase) : (s.moveTo i p).heap = s.heap :=
  rfl
@[simp] theorem Sys.moveTo_platformKeys (s : Sys) (i : Nat) (p : Phase) :
    (s.moveTo i p).platformKeys = s.platformKeys := rfl
@[simp] theorem Sys.moveTo_mu (s : Sys) (i : Nat) (p : Phase) : (s.moveTo i p).mu = s.mu := rfl
@[simp] theorem Sys.moveTo_hist (s : Sys) (i : Nat) (p : Phase) : (s.moveTo i p).hist = s.hist :=
  rfl
@[simp] theorem Sys.moveTo_threads (s : Sys) (i : Nat) (p : Phase) :
    (s.moveTo i p).threads = s.threads.set i p := rfl

/-- One iteration of the loop of `getPlatformKey` on `key`: its answer, or `none` to go on. -/
def loopStep (env : Env) (id : PlatformKeyId) (key : Bytes) : Option (Go Bytes) :=
  match env.hmacSum id.alg key id.salt with
  | .ok sum => if sum = id.digest then some (.ok key) else none
  | .err e => some (.err e)
  | .panic msg => some (.panic msg)

theorem getPlatformKey_loop_cons (env : Env) (id : PlatformKeyId) (key : Bytes)
    (keys : List Bytes) :
    getPlatformKey.loop env id (key :: keys) =
      (loopStep env id key).getD (getPlatformKey.loop env id keys) := by
  simp only [getPlatformKey.loop, loopStep]
  cases env.hmacSum id.alg key id.salt with
  | ok sum => by_cases hs : sum = id.digest <;> simp [hs]
  | err e => rfl
  | panic msg => rfl

/-- The next step of goroutine `i` in phase `p`; `none` when it blocks or has returned. -/
def stepAt (env : Env) (g : Grow) (s : Sys) (i : Nat) : Phase → Option Sys
  | .lock op =>
    if s.mu.writer then none
    else some { s.moveTo i (.wait op) with mu := { s.mu with writer := true } }
  | .wait (.set keys) => if s.mu.readers = 0 then some (s.moveTo i (.assign keys)) else none
  | .wait (.add keys) => if s.mu.readers = 0 then some (s.moveTo i (.appendRead keys)) else none
  | .assign keys =>
    some { s.moveTo i (.unlock (.set keys)) with
      platformKeys := keys, hist := s.hist ++ [(i, .set (keys.elems s.heap))] }
  | .appendRead keys =>
    some { s.moveTo i (.appendCopy keys s.platformKeys
        (appendAlloc g s.heap s.platformKeys keys.len).2 0) with
      heap := (appendAlloc g s.heap s.platformKeys keys.len).1 }
  | .appendCopy keys old dst k =>
    if k < keys.len then
      some { s.moveTo i (.appendCopy keys old dst (k + 1)) with
        heap := s.heap.write dst.arr (dst.off + old.len + k) (s.heap.get keys.arr (keys.off + k)) }
    else
      some { s.moveTo i (.unlock (.add keys)) with
        platformKeys := dst, hist := s.hist ++ [(i, .add (keys.elems s.heap))] }
  | .unlock op => some { s.moveTo i (.wrote op) with mu := { s.mu with writer := false } }
  | .wrote _ => none
  | .recover data encryptedPayload =>
    match recoverPre env data with
    | .ok (kd, aadBytes) =>
      some (s.moveTo i (.available (some ⟨data, encryptedPayload, kd, aadBytes⟩) kd.platformKeyID))
    | .error e =>
      some (s.moveTo i (.recovered data encryptedPayload s.hist.length s.hist.length (.err e)))
  | .available rc id =>
    if !env.available id.alg then
      some (s.moveTo i (.returned rc id s.hist.length s.hist.length
        (.err (.new "digest algorithm unavailable"))))
    else some (s.moveTo i (.rlock rc id s.hist.length))
  | .rlock rc id start =>
    if s.mu.writer then none
    else some { s.moveTo i (.copy rc id start) with
      mu := { s.mu with readers := s.mu.readers + 1 } }
  | .copy rc id start => some (s.moveTo i (.runlock rc id start s.platformKeys))
  | .runlock rc id start keys =>
    some { s.moveTo i (.loop rc id start keys 0) with
      mu := { s.mu with readers := s.mu.readers - 1 } }
  | .loop rc id start keys k =>
    if k < keys.len then
      match loopStep env id (s.heap.get keys.arr (keys.off + k)) with
      | some r => some (s.moveTo i (.returned rc id start s.hist.length r))
      | none => some (s.moveTo i (.loop rc id start keys (k + 1)))
    else
      some (s.moveTo i (.returned rc id start s.hist.length (.err (.new "no key available"))))
  | .returned none .. => none
  | .returned (some rc) _ start stop r =>
    some (s.moveTo i (.recovered rc.data rc.encryptedPayload start stop
      (recoverPost env rc.encryptedPayload rc.kd rc.aadBytes r)))
  | .recovered .. => none

/-- The elements the next step of a goroutine in phase `p` loads, as array and index, where `P`
is the store's header: the store's elements that a grown `append` copies, the key `append`
copies, and the key the loop reads. -/
def Phase.loads (P : Slice) : Phase → List (Nat × Nat)
  | .appendRead keys =>
    if P.len + keys.len ≤ P.cap then [] else (List.range P.len).map fun t => (P.arr, P.off + t)
  | .appendCopy keys _ _ k | .loop _ _ _ keys k =>
    if k < keys.len then [(keys.arr, keys.off + k)] else []
  | _ => []

/-- The element the next step of a goroutine in phase `p` stores into: where `append` copies a
key. -/
def Phase.stores : Phase → List (Nat × Nat)
  | .appendCopy keys old dst k => if k < keys.len then [(dst.arr, dst.off + old.len + k)] else []
  | _ => []

theorem Phase.mem_stores {p : Phase} {x : Nat × Nat} (h : x ∈ p.stores) :
    ∃ keys old dst k, p = .appendCopy keys old dst k ∧ k < keys.len ∧
      x = (dst.arr, dst.off + old.len + k) := by
  cases p with
  | appendCopy keys old dst k =>
    by_cases hk : k < keys.len
    · exact ⟨keys, old, dst, k, rfl, hk, by simpa [Phase.stores, hk] using h⟩
    · simp [Phase.stores, hk] at h
  | _ => simp [Phase.stores] at h

theorem Phase.mem_loads {P : Slice} {q : Phase} {x : Nat × Nat} (h : x ∈ q.loads P) :
    (∃ keys, q = .appendRead keys) ∨ (∃ keys old dst k, q = .appendCopy keys old dst k) ∨
      ∃ rc id start keys k, q = .loop rc id start keys k ∧ k < keys.len ∧
        x = (keys.arr, keys.off + k) := by
  cases q with
  | appendRead keys => exact .inl ⟨keys, rfl⟩
  | appendCopy keys old dst k => exact .inr (.inl ⟨keys, old, dst, k, rfl⟩)
  | loop rc id start keys k =>
    by_cases hk : k < keys.len
    · exact .inr (.inr ⟨rc, id, start, keys, k, rfl, hk, by simpa [Phase.loads, hk] using h⟩)
    · simp [Phase.loads, hk] at h
  | _ => simp [Phase.loads] at h

def step (env : Env) (g : Grow) (s : Sys) (i : Nat) : Option Sys :=
  s.threads[i]?.bind (stepAt env g s i)

def exec (env : Env) (g : Grow) : Sys → List Nat → Option Sys
  | s, [] => some s
  | s, i :: sched => (step env g s i).bind (exec env g · sched)

/-- The states some schedule reaches from the goroutines of `calls` over `heap`. -/
def Reachable (env : Env) (g : Grow) (heap : Heap) (calls : List Call) (s : Sys) : Prop :=
  ∃ sched, exec env g (Sys.init heap calls) sched = some s

/-! ## The transitions -/

inductive Step (env : Env) (g : Grow) (s : Sys) (i : Nat) : Sys → Prop where
  | lock {op} (hp : s.threads[i]? = some (.lock op)) (hw : s.mu.writer = false) :
      Step env g s i { s.moveTo i (.wait op) with mu := { s.mu with writer := true } }
  | enterSet {keys} (hp : s.threads[i]? = some (.wait (.set keys))) (hr : s.mu.readers = 0) :
      Step env g s i (s.moveTo i (.assign keys))
  | enterAdd {keys} (hp : s.threads[i]? = some (.wait (.add keys))) (hr : s.mu.readers = 0) :
      Step env g s i (s.moveTo i (.appendRead keys))
  | assign {keys} (hp : s.threads[i]? = some (.assign keys)) :
      Step env g s i { s.moveTo i (.unlock (.set keys)) with
        platformKeys := keys, hist := s.hist ++ [(i, .set (keys.elems s.heap))] }
  | appendRead {keys} (hp : s.threads[i]? = some (.appendRead keys)) :
      Step env g s i { s.moveTo i (.appendCopy keys s.platformKeys
          (appendAlloc g s.heap s.platformKeys keys.len).2 0) with
        heap := (appendAlloc g s.heap s.platformKeys keys.len).1 }
  | appendCopy {keys old dst k} (hp : s.threads[i]? = some (.appendCopy keys old dst k))
      (hk : k < keys.len) :
      Step env g s i { s.moveTo i (.appendCopy keys old dst (k + 1)) with
        heap := s.heap.write dst.arr (dst.off + old.len + k) (s.heap.get keys.arr (keys.off + k)) }
  | appendStore {keys old dst k} (hp : s.threads[i]? = some (.appendCopy keys old dst k))
      (hk : ¬k < keys.len) :
      Step env g s i { s.moveTo i (.unlock (.add keys)) with
        platformKeys := dst, hist := s.hist ++ [(i, .add (keys.elems s.heap))] }
  | unlock {op} (hp : s.threads[i]? = some (.unlock op)) :
      Step env g s i { s.moveTo i (.wrote op) with mu := { s.mu with writer := false } }
  | recoverStart {data encryptedPayload kd aadBytes}
      (hp : s.threads[i]? = some (.recover data encryptedPayload))
      (hpre : recoverPre env data = .ok (kd, aadBytes)) :
      Step env g s i
        (s.moveTo i (.available (some ⟨data, encryptedPayload, kd, aadBytes⟩) kd.platformKeyID))
  | recoverFail {data encryptedPayload e}
      (hp : s.threads[i]? = some (.recover data encryptedPayload))
      (hpre : recoverPre env data = .error e) :
      Step env g s i
        (s.moveTo i (.recovered data encryptedPayload s.hist.length s.hist.length (.err e)))
  | unavailable {rc id} (hp : s.threads[i]? = some (.available rc id))
      (ha : env.available id.alg = false) :
      Step env g s i (s.moveTo i (.returned rc id s.hist.length s.hist.length
        (.err (.new "digest algorithm unavailable"))))
  | available {rc id} (hp : s.threads[i]? = some (.available rc id))
      (ha : env.available id.alg = true) :
      Step env g s i (s.moveTo i (.rlock rc id s.hist.length))
  | rlock {rc id start} (hp : s.threads[i]? = some (.rlock rc id start))
      (hw : s.mu.writer = false) :
      Step env g s i
        { s.moveTo i (.copy rc id start) with mu := { s.mu with readers := s.mu.readers + 1 } }
  | copy {rc id start} (hp : s.threads[i]? = some (.copy rc id start)) :
      Step env g s i (s.moveTo i (.runlock rc id start s.platformKeys))
  | runlock {rc id start keys} (hp : s.threads[i]? = some (.runlock rc id start keys)) :
      Step env g s i { s.moveTo i (.loop rc id start keys 0) with
        mu := { s.mu with readers := s.mu.readers - 1 } }
  | loopNext {rc id start keys k} (hp : s.threads[i]? = some (.loop rc id start keys k))
      (hk : k < keys.len) (hl : loopStep env id (s.heap.get keys.arr (keys.off + k)) = none) :
      Step env g s i (s.moveTo i (.loop rc id start keys (k + 1)))
  | loopFound {rc id start keys k r} (hp : s.threads[i]? = some (.loop rc id start keys k))
      (hk : k < keys.len) (hl : loopStep env id (s.heap.get keys.arr (keys.off + k)) = some r) :
      Step env g s i (s.moveTo i (.returned rc id start s.hist.length r))
  | loopEnd {rc id start keys k} (hp : s.threads[i]? = some (.loop rc id start keys k))
      (hk : ¬k < keys.len) :
      Step env g s i (s.moveTo i (.returned rc id start s.hist.length
        (.err (.new "no key available"))))
  | recoverEnd {rc id start stop r}
      (hp : s.threads[i]? = some (.returned (some rc) id start stop r)) :
      Step env g s i (s.moveTo i (.recovered rc.data rc.encryptedPayload start stop
        (recoverPost env rc.encryptedPayload rc.kd rc.aadBytes r)))

theorem step_sound {env : Env} {g : Grow} {s s' : Sys} {i : Nat} (h : step env g s i = some s') :
    Step env g s i s' := by
  obtain ⟨p, hp, h⟩ := Option.bind_eq_some.1 h
  cases p with
  | lock op =>
    cases hw : s.mu.writer <;> simp [stepAt, hw] at h
    exact h ▸ .lock hp hw
  | wait op =>
    cases op <;> by_cases hr : s.mu.readers = 0 <;> simp [stepAt, hr] at h
    · exact h ▸ .enterSet hp hr
    · exact h ▸ .enterAdd hp hr
  | assign => simp only [stepAt, Option.some.injEq] at h; exact h ▸ .assign hp
  | appendRead => simp only [stepAt, Option.some.injEq] at h; exact h ▸ .appendRead hp
  | appendCopy keys old dst k =>
    by_cases hk : k < keys.len <;> simp only [stepAt, hk, ↓reduceIte, Option.some.injEq] at h
    · exact h ▸ .appendCopy hp hk
    · exact h ▸ .appendStore hp hk
  | unlock => simp only [stepAt, Option.some.injEq] at h; exact h ▸ .unlock hp
  | wrote => simp [stepAt] at h
  | recover data encryptedPayload =>
    rcases hpre : recoverPre env data with e | ⟨kd, aadBytes⟩ <;>
      simp only [stepAt, hpre, Option.some.injEq] at h
    · exact h ▸ .recoverFail hp hpre
    · exact h ▸ .recoverStart hp hpre
  | available rc id =>
    cases ha : env.available id.alg <;> simp [stepAt, ha] at h
    · exact h ▸ .unavailable hp ha
    · exact h ▸ .available hp ha
  | rlock =>
    simp only [stepAt] at h
    split at h
    · cases h
    · rename_i hw; exact Option.some.inj h ▸ .rlock hp (by simpa using hw)
  | copy => simp only [stepAt, Option.some.injEq] at h; exact h ▸ .copy hp
  | runlock => simp only [stepAt, Option.some.injEq] at h; exact h ▸ .runlock hp
  | loop rc id start keys k =>
    by_cases hk : k < keys.len
    · rcases hl : loopStep env id (s.heap.get keys.arr (keys.off + k)) with _ | r <;>
        simp only [stepAt, hk, hl, ↓reduceIte, Option.some.injEq] at h
      · exact h ▸ .loopNext hp hk hl
      · exact h ▸ .loopFound hp hk hl
    · simp only [stepAt, hk, ↓reduceIte, Option.some.injEq] at h
      exact h ▸ .loopEnd hp hk
  | returned rc =>
    cases rc
    · simp [stepAt] at h
    · simp only [stepAt, Option.some.injEq] at h; exact h ▸ .recoverEnd hp
  | recovered => simp [stepAt] at h

theorem exec_preserves {env : Env} {g : Grow} {P : Sys → Prop}
    (hs : ∀ s i s', P s → Step env g s i s' → P s') :
    ∀ (sched : List Nat) (s s' : Sys), P s → exec env g s sched = some s' → P s'
  | [], s, s', h, he => by cases he; exact h
  | i :: sched, s, s', h, he => by
    obtain ⟨s₁, h₁, he⟩ := Option.bind_eq_some.1 he
    exact exec_preserves hs sched s₁ s' (hs s i s₁ h (step_sound h₁)) he

theorem Reachable.induction {env : Env} {g : Grow} {heap : Heap} {calls : List Call}
    {P : Sys → Prop} (h₀ : P (Sys.init heap calls)) (hs : ∀ s i s', P s → Step env g s i s' → P s')
    {s : Sys} (h : Reachable env g heap calls s) : P s :=
  let ⟨sched, he⟩ := h
  exec_preserves hs sched _ _ h₀ he

theorem exec_append (env : Env) (g : Grow) :
    ∀ (sched₁ sched₂ : List Nat) (s : Sys),
      exec env g s (sched₁ ++ sched₂) = (exec env g s sched₁).bind (exec env g · sched₂)
  | [], _, _ => rfl
  | i :: sched₁, sched₂, s => by
    simp only [List.cons_append, exec]
    cases step env g s i <;> simp [exec_append env g sched₁]

theorem Reachable.of_exec {env : Env} {g : Grow} {heap : Heap} {calls : List Call} {s s' : Sys}
    {sched : List Nat} (h : Reachable env g heap calls s) (he : exec env g s sched = some s') :
    Reachable env g heap calls s' :=
  let ⟨sched₀, h₀⟩ := h
  ⟨sched₀ ++ sched, by rw [exec_append, h₀]; exact he⟩

end Mem
end Plainkey
