import Plainkey.Recover

/-!
# Plainkey.Interleave

The handler and the key store under concurrent calls. `platformKeys` sits behind
`platformKeysMu`, a `sync.RWMutex`: `SetPlatformKeys` and `AddPlatformKeys` hold its write lock
around their assignment, and `getPlatformKey`, which `RecoverKeys` calls, holds its read lock
while it copies the slice, then runs its loop over the copy with no lock held. The host may run
`RecoverKeys` on several goroutines while others change the keys (spec §5).

Each goroutine runs one call. A state `Sys` holds the store, the mutex and the phase of every
goroutine, and `step env s i` is the next atomic step of goroutine `i`, or `none` when it is
blocked or has returned. A schedule is a list of goroutine indices; `exec` runs it, and
`Reachable` is what some schedule reaches from the start.

A step is one access to shared state, or local work between two of them. The assignment of
`SetPlatformKeys` is one step; `append` in `AddPlatformKeys` reads `platformKeys` and stores the
longer slice, two steps, so that a writer running between them would lose an update.
`RecoverKeys` is cut at its call of `getPlatformKey`: `recoverPre` is the code before it and
`recoverPost` the code after it, each one local step (`recoverKeys_split`). The mutex follows its
documented contract: `Lock` first takes the writer's place, which keeps other writers and new
readers out, then waits for the readers already inside to leave; `RLock` waits while a writer
holds or waits for the lock. Slices are values here. That is exact only under `Mem.NoAlias` of
`Plainkey.Refine`: each write call's slice lies inside its array, and no two write calls,
`SetPlatformKeys` or `AddPlatformKeys`, get slices of nonzero capacity over one array. Without it
an `append` in place can change a copy a reader holds, which values cannot express; the results
of this model are carried to the code with its slices in `Plainkey.Refine`.

The state also keeps what the code does not: `hist`, every assignment to `platformKeys` so far,
in order, with the goroutine that made it, and for each `getPlatformKey` call the length of
`hist` when its availability check ran (`start`) and when it returned (`stop`).

* `recoverKeys_split`: `RecoverKeys` is `recoverPre`, then `getPlatformKey`, then `recoverPost`.
* `step_sound`, `Step.step_eq`: the steps are the transitions of `Step`.
* `Reachable.induction`: a property of the initial state that every step keeps holds in every
  reachable state.
-/

namespace Plainkey

deriving instance DecidableEq, Repr for Op

/-! ## `RecoverKeys` around its call of `getPlatformKey` -/

/-- `RecoverKeys` up to its call of `getPlatformKey`: decode the handle, check the nonce length
and serialize the AAD. -/
def recoverPre (env : Env) (data : PlatformKeyData) : Except Error (KeyData × Bytes) := do
  let kd ← (env.unmarshalKeyData data.encodedHandle).mapError (.platformHandler .invalidData)
  if kd.nonce.length < env.symKeySaltSize then
    throw (.platformHandler .invalidData (.new "invalid nonce size"))
  let aad : AdditionalData :=
    { version := kd.version, generation := data.generation, kdfAlg := data.kdfAlg,
      authMode := data.authMode }
  let aadBytes ← (env.marshalAAD aad).mapError
    fun err => .platformHandler .invalidData (.wrap "cannot serialize AAD" err)
  pure (kd, aadBytes)

/-- `RecoverKeys` from the answer `r` of `getPlatformKey` on. -/
def recoverPost (env : Env) (encryptedPayload : Bytes) (kd : KeyData) (aadBytes : Bytes)
    (r : Go Bytes) : Go Bytes := do
  let key ← r.mapErr
    fun err => .platformHandler .invalidData (.wrap "cannot select platform key" err)
  let salt ← sliceTo kd.nonce env.symKeySaltSize
  let b ← (Go.ofExcept (aesNewCipher (env.deriveAESKey key salt))).mapErr
    (.wrap "cannot create cipher")
  let nonce ← sliceFrom kd.nonce env.symKeySaltSize
  let aead ← (Go.ofExcept (newGCMWithNonceSize b nonce.length)).mapErr
    (.wrap "cannot create AEAD")
  (aead.open env nonce encryptedPayload aadBytes).mapErr
    fun err => .platformHandler .invalidData (.wrap "cannot open payload" err)

theorem recoverKeys_split (env : Env) (s : State) (data : PlatformKeyData)
    (encryptedPayload : Bytes) :
    recoverKeys env s data encryptedPayload = match recoverPre env data with
      | .ok (kd, aadBytes) =>
        recoverPost env encryptedPayload kd aadBytes (getPlatformKey env s kd.platformKeyID)
      | .error e => .err e := by
  rcases hkd : env.unmarshalKeyData data.encodedHandle with e | kd
  · simp only [recoverKeys, recoverPre, hkd, Go.ofExcept_error, Go.mapErr_err, Go.err_bind,
      except_mapError_error, except_error_bind]
  by_cases hlt : kd.nonce.length < env.symKeySaltSize
  · simp only [recoverKeys, recoverPre, hkd, hlt, ↓reduceIte, Go.ofExcept_ok, Go.mapErr_ok,
      Go.throw_eq, Go.err_bind, Go.ok_bind, except_mapError_ok, except_throw_eq, except_error_bind,
      except_ok_bind]
  rcases ha : env.marshalAAD ⟨kd.version, data.generation, data.kdfAlg, data.authMode⟩ with
    e | a <;>
    simp only [recoverKeys, recoverPre, recoverPost, hkd, hlt, ha, ↓reduceIte, Go.ofExcept_ok,
      Go.ofExcept_error, Go.mapErr_ok, Go.mapErr_err, Go.pure_eq, Go.err_bind, Go.ok_bind,
      except_mapError_ok, except_mapError_error, except_pure_eq, except_error_bind, except_ok_bind]

theorem recoverKeys_of_recoverPre {env : Env} {data : PlatformKeyData} {kd : KeyData}
    {aadBytes : Bytes} (h : recoverPre env data = .ok (kd, aadBytes)) (s : State)
    (encryptedPayload : Bytes) :
    recoverKeys env s data encryptedPayload =
      recoverPost env encryptedPayload kd aadBytes (getPlatformKey env s kd.platformKeyID) := by
  rw [recoverKeys_split, h]

theorem recoverKeys_of_recoverPre_error {env : Env} {data : PlatformKeyData} {e : Error}
    (h : recoverPre env data = .error e) (s : State) (encryptedPayload : Bytes) :
    recoverKeys env s data encryptedPayload = .err e := by
  rw [recoverKeys_split, h]

/-! ## Goroutines -/

/-- `sync.RWMutex`, as its contract describes it: whether a writer holds the lock or waits for
it, and how many readers hold it. -/
structure RWMutex where
  writer : Bool
  readers : Nat
deriving DecidableEq, Repr

/-- A `RecoverKeys` call inside its `getPlatformKey`: its arguments and the locals `recoverPre`
computed. -/
structure Recovery where
  data : PlatformKeyData
  encryptedPayload : Bytes
  kd : KeyData
  aadBytes : Bytes
deriving DecidableEq, Repr

inductive Call where
  | write (op : Op)
  | get (id : PlatformKeyId)
  | recover (data : PlatformKeyData) (encryptedPayload : Bytes)
deriving DecidableEq, Repr

/-- Where a goroutine is in its call. A write call: before `Lock()` (`lock`); inside it, with the
writer's place, waiting for readers (`wait`); holding the lock at the assignment (`assign`), or at
`append` reading `platformKeys` (`appendRead`) and storing `old ++ keys` (`appendWrite`); before
`Unlock()` (`unlock`); returned (`wrote`). `RecoverKeys` before its call of `getPlatformKey`
(`recover`) and after it (`recovered`). `getPlatformKey`, with the `RecoverKeys` call it serves if
any (`rc`): the `Available` check, `RLock()`, the copy `keys := platformKeys`, `RUnlock()`, the
loop over the copy, and its return. -/
inductive Phase where
  | lock (op : Op)
  | wait (op : Op)
  | assign (keys : List Bytes)
  | appendRead (keys : List Bytes)
  | appendWrite (keys old : List Bytes)
  | unlock (op : Op)
  | wrote (op : Op)
  | recover (data : PlatformKeyData) (encryptedPayload : Bytes)
  | available (rc : Option Recovery) (id : PlatformKeyId)
  | rlock (rc : Option Recovery) (id : PlatformKeyId) (start : Nat)
  | copy (rc : Option Recovery) (id : PlatformKeyId) (start : Nat)
  | runlock (rc : Option Recovery) (id : PlatformKeyId) (start : Nat) (keys : List Bytes)
  | loop (rc : Option Recovery) (id : PlatformKeyId) (start : Nat) (keys : List Bytes)
  | returned (rc : Option Recovery) (id : PlatformKeyId) (start stop : Nat) (r : Go Bytes)
  | recovered (data : PlatformKeyData) (encryptedPayload : Bytes) (start stop : Nat)
      (r : Go Bytes)
deriving DecidableEq, Repr

namespace Phase

/-- The goroutine has the writer's place: it waits inside `Lock()` or holds the write lock. -/
def holdsLock : Phase → Bool
  | wait _ | assign _ | appendRead _ | appendWrite _ _ | unlock _ => true
  | _ => false

def inWrite : Phase → Bool
  | assign _ | appendRead _ | appendWrite _ _ | unlock _ => true
  | _ => false

def holdsRLock : Phase → Bool
  | copy _ _ _ | runlock _ _ _ _ => true
  | _ => false

def writesKeys : Phase → Bool
  | assign _ | appendWrite _ _ => true
  | _ => false

def accessesKeys : Phase → Bool
  | assign _ | appendRead _ | appendWrite _ _ | copy _ _ _ => true
  | _ => false

def done : Phase → Bool
  | wrote _ | returned none _ _ _ _ | recovered _ _ _ _ _ => true
  | _ => false

def written : Phase → List Op
  | unlock op | wrote op => [op]
  | _ => []

theorem holdsLock_of_inWrite {p : Phase} (h : p.inWrite = true) : p.holdsLock = true := by
  cases p <;> simp_all [inWrite, holdsLock]

end Phase

def Call.start : Call → Phase
  | .write op => .lock op
  | .get id => .available none id
  | .recover data encryptedPayload => .recover data encryptedPayload

/-- The store, the mutex, the goroutines, and the ghost history of assignments. -/
structure Sys where
  store : State
  mu : RWMutex
  threads : List Phase
  hist : List (Nat × Op)
deriving DecidableEq, Repr

def Sys.init (calls : List Call) : Sys := ⟨.init, ⟨false, 0⟩, calls.map Call.start, []⟩

def Sys.moveTo (s : Sys) (i : Nat) (p : Phase) : Sys := { s with threads := s.threads.set i p }

@[simp] theorem Sys.moveTo_store (s : Sys) (i : Nat) (p : Phase) : (s.moveTo i p).store = s.store :=
  rfl
@[simp] theorem Sys.moveTo_mu (s : Sys) (i : Nat) (p : Phase) : (s.moveTo i p).mu = s.mu := rfl
@[simp] theorem Sys.moveTo_hist (s : Sys) (i : Nat) (p : Phase) : (s.moveTo i p).hist = s.hist :=
  rfl
@[simp] theorem Sys.moveTo_threads (s : Sys) (i : Nat) (p : Phase) :
    (s.moveTo i p).threads = s.threads.set i p := rfl

/-- The next step of goroutine `i` in phase `p`; `none` when it blocks or has returned. -/
def stepAt (env : Env) (s : Sys) (i : Nat) : Phase → Option Sys
  | .lock op =>
    if s.mu.writer then none
    else some { s.moveTo i (.wait op) with mu := { s.mu with writer := true } }
  | .wait (.set keys) => if s.mu.readers = 0 then some (s.moveTo i (.assign keys)) else none
  | .wait (.add keys) => if s.mu.readers = 0 then some (s.moveTo i (.appendRead keys)) else none
  | .assign keys =>
    some { s.moveTo i (.unlock (.set keys)) with
      store := ⟨keys⟩, hist := s.hist ++ [(i, .set keys)] }
  | .appendRead keys => some (s.moveTo i (.appendWrite keys s.store.platformKeys))
  | .appendWrite keys old =>
    some { s.moveTo i (.unlock (.add keys)) with
      store := ⟨old ++ keys⟩, hist := s.hist ++ [(i, .add keys)] }
  | .unlock op => some { s.moveTo i (.wrote op) with mu := { s.mu with writer := false } }
  | .wrote _ => none
  | .recover data encryptedPayload =>
    match recoverPre env data with
    | .ok (kd, aadBytes) =>
      some (s.moveTo i (.available (some ⟨data, encryptedPayload, kd, aadBytes⟩) kd.platformKeyID))
    | .error e =>
      some (s.moveTo i (.recovered data encryptedPayload s.hist.length s.hist.length (.err e)))
  | .available rc id =>
    if !env.available id.alg then
      some (s.moveTo i (.returned rc id s.hist.length s.hist.length
        (.err (.new "digest algorithm unavailable"))))
    else some (s.moveTo i (.rlock rc id s.hist.length))
  | .rlock rc id start =>
    if s.mu.writer then none
    else some { s.moveTo i (.copy rc id start) with
      mu := { s.mu with readers := s.mu.readers + 1 } }
  | .copy rc id start => some (s.moveTo i (.runlock rc id start s.store.platformKeys))
  | .runlock rc id start keys =>
    some { s.moveTo i (.loop rc id start keys) with
      mu := { s.mu with readers := s.mu.readers - 1 } }
  | .loop rc id start keys =>
    some (s.moveTo i (.returned rc id start s.hist.length (getPlatformKey.loop env id keys)))
  | .returned none .. => none
  | .returned (some rc) _ start stop r =>
    some (s.moveTo i (.recovered rc.data rc.encryptedPayload start stop
      (recoverPost env rc.encryptedPayload rc.kd rc.aadBytes r)))
  | .recovered .. => none

def step (env : Env) (s : Sys) (i : Nat) : Option Sys := s.threads[i]?.bind (stepAt env s i)

def exec (env : Env) : Sys → List Nat → Option Sys
  | s, [] => some s
  | s, i :: sched => (step env s i).bind (exec env · sched)

/-- The states some schedule reaches from the goroutines of `calls`. -/
def Reachable (env : Env) (calls : List Call) (s : Sys) : Prop :=
  ∃ sched, exec env (Sys.init calls) sched = some s

/-! ## The transitions -/

inductive Step (env : Env) (s : Sys) (i : Nat) : Sys → Prop where
  | lock {op} (hp : s.threads[i]? = some (.lock op)) (hw : s.mu.writer = false) :
      Step env s i { s.moveTo i (.wait op) with mu := { s.mu with writer := true } }
  | enterSet {keys} (hp : s.threads[i]? = some (.wait (.set keys))) (hr : s.mu.readers = 0) :
      Step env s i (s.moveTo i (.assign keys))
  | enterAdd {keys} (hp : s.threads[i]? = some (.wait (.add keys))) (hr : s.mu.readers = 0) :
      Step env s i (s.moveTo i (.appendRead keys))
  | assign {keys} (hp : s.threads[i]? = some (.assign keys)) :
      Step env s i { s.moveTo i (.unlock (.set keys)) with
        store := ⟨keys⟩, hist := s.hist ++ [(i, .set keys)] }
  | appendRead {keys} (hp : s.threads[i]? = some (.appendRead keys)) :
      Step env s i (s.moveTo i (.appendWrite keys s.store.platformKeys))
  | appendWrite {keys old} (hp : s.threads[i]? = some (.appendWrite keys old)) :
      Step env s i { s.moveTo i (.unlock (.add keys)) with
        store := ⟨old ++ keys⟩, hist := s.hist ++ [(i, .add keys)] }
  | unlock {op} (hp : s.threads[i]? = some (.unlock op)) :
      Step env s i { s.moveTo i (.wrote op) with mu := { s.mu with writer := false } }
  | recoverStart {data encryptedPayload kd aadBytes}
      (hp : s.threads[i]? = some (.recover data encryptedPayload))
      (hpre : recoverPre env data = .ok (kd, aadBytes)) :
      Step env s i
        (s.moveTo i (.available (some ⟨data, encryptedPayload, kd, aadBytes⟩) kd.platformKeyID))
  | recoverFail {data encryptedPayload e}
      (hp : s.threads[i]? = some (.recover data encryptedPayload))
      (hpre : recoverPre env data = .error e) :
      Step env s i
        (s.moveTo i (.recovered data encryptedPayload s.hist.length s.hist.length (.err e)))
  | unavailable {rc id} (hp : s.threads[i]? = some (.available rc id))
      (ha : env.available id.alg = false) :
      Step env s i (s.moveTo i (.returned rc id s.hist.length s.hist.length
        (.err (.new "digest algorithm unavailable"))))
  | available {rc id} (hp : s.threads[i]? = some (.available rc id))
      (ha : env.available id.alg = true) :
      Step env s i (s.moveTo i (.rlock rc id s.hist.length))
  | rlock {rc id start} (hp : s.threads[i]? = some (.rlock rc id start))
      (hw : s.mu.writer = false) :
      Step env s i
        { s.moveTo i (.copy rc id start) with mu := { s.mu with readers := s.mu.readers + 1 } }
  | copy {rc id start} (hp : s.threads[i]? = some (.copy rc id start)) :
      Step env s i (s.moveTo i (.runlock rc id start s.store.platformKeys))
  | runlock {rc id start keys} (hp : s.threads[i]? = some (.runlock rc id start keys)) :
      Step env s i
        { s.moveTo i (.loop rc id start keys) with mu := { s.mu with readers := s.mu.readers - 1 } }
  | loop {rc id start keys} (hp : s.threads[i]? = some (.loop rc id start keys)) :
      Step env s i
        (s.moveTo i (.returned rc id start s.hist.length (getPlatformKey.loop env id keys)))
  | recoverEnd {rc id start stop r}
      (hp : s.threads[i]? = some (.returned (some rc) id start stop r)) :
      Step env s i (s.moveTo i (.recovered rc.data rc.encryptedPayload start stop
        (recoverPost env rc.encryptedPayload rc.kd rc.aadBytes r)))

theorem step_sound {env : Env} {s s' : Sys} {i : Nat} (h : step env s i = some s') :
    Step env s i s' := by
  obtain ⟨p, hp, h⟩ := Option.bind_eq_some.1 h
  cases p with
  | lock op =>
    cases hw : s.mu.writer <;> simp [stepAt, hw] at h
    exact h ▸ .lock hp hw
  | wait op =>
    cases op <;> by_cases hr : s.mu.readers = 0 <;> simp [stepAt, hr] at h
    · exact h ▸ .enterSet hp hr
    · exact h ▸ .enterAdd hp hr
  | assign => simp only [stepAt, Option.some.injEq] at h; exact h ▸ .assign hp
  | appendRead => simp only [stepAt, Option.some.injEq] at h; exact h ▸ .appendRead hp
  | appendWrite => simp only [stepAt, Option.some.injEq] at h; exact h ▸ .appendWrite hp
  | unlock => simp only [stepAt, Option.some.injEq] at h; exact h ▸ .unlock hp
  | wrote => simp [stepAt] at h
  | recover data encryptedPayload =>
    rcases hpre : recoverPre env data with e | ⟨kd, aadBytes⟩ <;>
      simp only [stepAt, hpre, Option.some.injEq] at h
    · exact h ▸ .recoverFail hp hpre
    · exact h ▸ .recoverStart hp hpre
  | available rc id =>
    cases ha : env.available id.alg <;> simp [stepAt, ha] at h
    · exact h ▸ .unavailable hp ha
    · exact h ▸ .available hp ha
  | rlock =>
    simp only [stepAt] at h
    split at h
    · cases h
    · rename_i hw; exact Option.some.inj h ▸ .rlock hp (by simpa using hw)
  | copy => simp only [stepAt, Option.some.injEq] at h; exact h ▸ .copy hp
  | runlock => simp only [stepAt, Option.some.injEq] at h; exact h ▸ .runlock hp
  | loop => simp only [stepAt, Option.some.injEq] at h; exact h ▸ .loop hp
  | returned rc =>
    cases rc
    · simp [stepAt] at h
    · simp only [stepAt, Option.some.injEq] at h; exact h ▸ .recoverEnd hp
  | recovered => simp [stepAt] at h

theorem Step.step_eq {env : Env} {s s' : Sys} {i : Nat} (h : Step env s i s') :
    step env s i = some s' := by
  cases h <;> rw [step, ‹s.threads[i]? = _›, Option.some_bind] <;>
    simp only [stepAt, *, Bool.not_false, Bool.not_true, Bool.false_eq_true, ↓reduceIte]

theorem exec_preserves {env : Env} {P : Sys → Prop}
    (hs : ∀ s i s', P s → Step env s i s' → P s') :
    ∀ (sched : List Nat) (s s' : Sys), P s → exec env s sched = some s' → P s'
  | [], s, s', h, he => by cases he; exact h
  | i :: sched, s, s', h, he => by
    obtain ⟨s₁, h₁, he⟩ := Option.bind_eq_some.1 he
    exact exec_preserves hs sched s₁ s' (hs s i s₁ h (step_sound h₁)) he

theorem Reachable.induction {env : Env} {calls : List Call} {P : Sys → Prop}
    (h₀ : P (Sys.init calls)) (hs : ∀ s i s', P s → Step env s i s' → P s') {s : Sys}
    (h : Reachable env calls s) : P s :=
  let ⟨sched, he⟩ := h
  exec_preserves hs sched _ _ h₀ he

end Plainkey
