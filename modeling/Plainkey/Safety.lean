import Plainkey.Interleave

/-!
# Plainkey.Safety

What `platformKeysMu` buys, over every interleaving of the calls.

The invariant has two parts. `LockInv` ties the mutex to the goroutines: the writer flag is set
exactly when a goroutine has the writer's place, at most one has it, the reader count is the
number of goroutines that hold the read lock, and no reader holds it while a writer does.
`DataInv` ties the store to the history: the store is what the sequential model computes from the
assignments in the order they were made, each goroutine's assignment is in the history once it
has made it, a reader's copy is the store after some prefix of the history, and a `RecoverKeys`
call inside `getPlatformKey` holds what `recoverPre` computed. `reachable_inv`: both hold in every
reachable state.

* `reachable_exclusive`: while a goroutine holds the write lock, no other goroutine holds the
  lock in either mode.
* `reachable_race_free`: no two goroutines are ever about to access `platformKeys` at once with
  one of them writing, so the program has no data race on it.
* `reachable_unlock_held`: `Unlock` and `RUnlock` are only called on a mutex locked in that mode,
  so the runtime's fatal errors for an unlocked mutex never happen.
* `reachable_store`: no update is lost: the store is the sequential `run` of the assignments in
  the order they were made, the keys of the last `SetPlatformKeys` then those of every later
  `AddPlatformKeys`.
* `reachable_get`: `getPlatformKey` is linearizable: a call returns what the sequential selector
  returns on the store after some prefix of the history, taken while the call ran.
* `reachable_recover`: so is `RecoverKeys`: a call returns what the sequential `recoverKeys`
  returns on the store after some prefix of the history, taken while the call ran.
* `reachable_progress`: no reachable state is stuck while a call has not returned.
-/

namespace Plainkey

/-! ## Lists of goroutines -/

section Lists

variable {α : Type} {l : List α} {i : Nat} {a : α}

theorem countP_set_add (f : α → Bool) (h : l[i]? = some a) (b : α) :
    (l.set i b).countP f + (f a).toNat = l.countP f + (f b).toNat := by
  obtain ⟨hi, rfl⟩ := List.getElem?_eq_some.1 h
  have := List.boole_getElem_le_countP f l i hi
  rw [List.countP_set f l i b hi]
  cases hf : f l[i] <;> cases f b <;> simp only [hf, Bool.toNat_true, Bool.toNat_false, ↓reduceIte,
    Bool.false_eq_true] at this ⊢ <;> omega

theorem countP_set_of_eq {f : α → Bool} (h : l[i]? = some a) {b : α} (hb : f b = f a) :
    (l.set i b).countP f = l.countP f := by
  have := countP_set_add f h b
  rw [hb] at this
  omega

theorem countP_pos_of_getElem? {f : α → Bool} (h : l[i]? = some a) (ha : f a = true) :
    0 < l.countP f :=
  List.countP_pos_iff.2 ⟨a, List.getElem?_mem h, ha⟩

theorem exists_getElem?_of_countP_pos {f : α → Bool} (h : 0 < l.countP f) :
    ∃ (j : Nat) (b : α), l[j]? = some b ∧ f b = true := by
  obtain ⟨b, hb, hf⟩ := List.countP_pos_iff.1 h
  obtain ⟨j, hj⟩ := List.mem_iff_getElem?.1 hb
  exact ⟨j, b, hj, hf⟩

theorem getElem?_set_of_getElem? (h : l[i]? = some a) (b : α) (j : Nat) :
    (l.set i b)[j]? = if i = j then some b else l[j]? := by
  obtain ⟨hi, -⟩ := List.getElem?_eq_some.1 h
  simp [List.getElem?_set, hi]

theorem forall_set {P : Nat → α → Prop} (h : l[i]? = some a)
    (hall : ∀ j x, j ≠ i → l[j]? = some x → P j x) {b : α} (hb : P i b) :
    ∀ j x, (l.set i b)[j]? = some x → P j x := by
  intro j x hj
  rw [getElem?_set_of_getElem? h] at hj
  split at hj
  · cases hj; subst_vars; exact hb
  · exact hall j x (Ne.symm ‹_›) hj

theorem foldr_set_add (f : α → Nat) (h : l[i]? = some a) (b : α) :
    (l.set i b).foldr (fun x n => f x + n) 0 + f a = l.foldr (fun x n => f x + n) 0 + f b := by
  induction l generalizing i with
  | nil => simp at h
  | cons x l ih =>
    cases i with
    | zero => simp only [List.getElem?_cons_zero, Option.some.injEq] at h; subst h; simp; omega
    | succ i =>
      have := ih (by simpa using h)
      simp only [List.set_cons_succ, List.foldr_cons]
      omega

end Lists

/-! ## The mutex -/

/-- The mutex's state agrees with the goroutines' phases, and the lock excludes what it should. -/
structure LockInv (mu : RWMutex) (ts : List Phase) : Prop where
  writer : mu.writer = true ↔ 0 < ts.countP Phase.holdsLock
  one : ts.countP Phase.holdsLock ≤ 1
  readers : mu.readers = ts.countP Phase.holdsRLock
  excl : ts.countP Phase.inWrite = 0 ∨ ts.countP Phase.holdsRLock = 0

section LockInv

variable {mu : RWMutex} {ts : List Phase} {i : Nat} {p q : Phase}

theorem countP_inWrite_le (ts : List Phase) :
    ts.countP Phase.inWrite ≤ ts.countP Phase.holdsLock :=
  List.countP_mono_left fun _ _ => Phase.holdsLock_of_inWrite

theorem counts_set (hi : ts[i]? = some p) (q : Phase) :
    (ts.set i q).countP Phase.holdsLock + p.holdsLock.toNat =
      ts.countP Phase.holdsLock + q.holdsLock.toNat ∧
    (ts.set i q).countP Phase.inWrite + p.inWrite.toNat =
      ts.countP Phase.inWrite + q.inWrite.toNat ∧
    (ts.set i q).countP Phase.holdsRLock + p.holdsRLock.toNat =
      ts.countP Phase.holdsRLock + q.holdsRLock.toNat :=
  ⟨countP_set_add _ hi q, countP_set_add _ hi q, countP_set_add _ hi q⟩

theorem LockInv.unique (hl : LockInv mu ts) (hi : ts[i]? = some p) (hp : p.holdsLock = true)
    {j : Nat} (hj : ts[j]? = some q) (hq : q.holdsLock = true) : j = i := by
  by_contra hji
  have hset := countP_set_add Phase.holdsLock hi (.lock (.set []))
  have hpos : 0 < (ts.set i (.lock (.set []))).countP Phase.holdsLock :=
    countP_pos_of_getElem? (by rw [List.getElem?_set_ne (Ne.symm hji)]; exact hj) hq
  rw [hp] at hset
  simp only [Phase.holdsLock, Bool.toNat_true, Bool.toNat_false] at hset
  have := hl.one
  omega

theorem LockInv.quiet (hl : LockInv mu ts) (hi : ts[i]? = some p)
    (hL : q.holdsLock = p.holdsLock) (hW : q.inWrite = p.inWrite)
    (hR : q.holdsRLock = p.holdsRLock) :
    LockInv mu (ts.set i q) := by
  have eL := countP_set_of_eq hi hL
  have eW := countP_set_of_eq hi hW
  have eR := countP_set_of_eq hi hR
  exact ⟨eL ▸ hl.writer, eL ▸ hl.one, eR ▸ hl.readers, eW ▸ eR ▸ hl.excl⟩

theorem LockInv.lock {op : Op} (hl : LockInv mu ts) (hi : ts[i]? = some (.lock op))
    (hw : mu.writer = false) : LockInv { mu with writer := true } (ts.set i (.wait op)) := by
  obtain ⟨hL, hW, hR⟩ := counts_set hi (.wait op)
  simp only [Phase.holdsLock, Phase.inWrite, Phase.holdsRLock, Bool.toNat_true,
    Bool.toNat_false] at hL hW hR
  have h0 := hw ▸ hl.writer
  simp only [Bool.false_eq_true, false_iff, Nat.not_lt, Nat.le_zero] at h0
  have := hl.readers
  have := hl.excl
  exact ⟨by simp only [true_iff]; omega, by omega, by simp only; omega, by omega⟩

theorem LockInv.enter {op : Op} (hl : LockInv mu ts) (hi : ts[i]? = some (.wait op))
    (hr : mu.readers = 0) (hL : q.holdsLock = true) (hR : q.holdsRLock = false) :
    LockInv mu (ts.set i q) := by
  obtain ⟨hL', -, hR'⟩ := counts_set hi q
  rw [hL] at hL'
  rw [hR] at hR'
  simp only [Phase.holdsLock, Phase.holdsRLock, Bool.toNat_true, Bool.toNat_false] at hL' hR'
  have := hl.one
  have := hl.readers
  exact ⟨by rw [hl.writer]; omega, by omega, by omega, by omega⟩

theorem LockInv.unlock {op : Op} (hl : LockInv mu ts) (hi : ts[i]? = some (.unlock op)) :
    LockInv { mu with writer := false } (ts.set i (.wrote op)) := by
  obtain ⟨hL, hW, hR⟩ := counts_set hi (.wrote op)
  simp only [Phase.holdsLock, Phase.inWrite, Phase.holdsRLock, Bool.toNat_true,
    Bool.toNat_false] at hL hW hR
  have := hl.one
  have := hl.readers
  have := countP_inWrite_le ts
  exact ⟨by simp only [Bool.false_eq_true, false_iff]; omega, by omega, by simp only; omega,
    by omega⟩

theorem LockInv.rlock {rc : Option Recovery} {id : PlatformKeyId} {start : Nat}
    (hl : LockInv mu ts) (hi : ts[i]? = some (.rlock rc id start)) (hw : mu.writer = false) :
    LockInv { mu with readers := mu.readers + 1 } (ts.set i (.copy rc id start)) := by
  obtain ⟨hL, hW, hR⟩ := counts_set hi (.copy rc id start)
  simp only [Phase.holdsLock, Phase.inWrite, Phase.holdsRLock, Bool.toNat_true,
    Bool.toNat_false] at hL hW hR
  have h0 := hw ▸ hl.writer
  simp only [Bool.false_eq_true, false_iff, Nat.not_lt, Nat.le_zero] at h0
  have := hl.readers
  have := countP_inWrite_le ts
  exact ⟨by simp only [hw, Bool.false_eq_true, false_iff]; omega, by omega, by simp only; omega,
    by omega⟩

theorem LockInv.runlock {rc : Option Recovery} {id : PlatformKeyId} {start : Nat}
    {keys : List Bytes} (hl : LockInv mu ts) (hi : ts[i]? = some (.runlock rc id start keys)) :
    LockInv { mu with readers := mu.readers - 1 } (ts.set i (.loop rc id start keys)) := by
  obtain ⟨hL, hW, hR⟩ := counts_set hi (.loop rc id start keys)
  simp only [Phase.holdsLock, Phase.inWrite, Phase.holdsRLock, Bool.toNat_true,
    Bool.toNat_false] at hL hW hR
  have := hl.one
  have := hl.readers
  have := hl.excl
  exact ⟨by rw [hl.writer]; omega, by omega, by simp only; omega, by omega⟩

end LockInv

theorem LockInv.step {env : Env} {s s' : Sys} {i : Nat} (hl : LockInv s.mu s.threads)
    (h : Step env s i s') : LockInv s'.mu s'.threads := by
  cases h with
  | lock hp hw => exact hl.lock hp hw
  | enterSet hp hr => exact hl.enter hp hr rfl rfl
  | enterAdd hp hr => exact hl.enter hp hr rfl rfl
  | assign hp => exact hl.quiet hp rfl rfl rfl
  | appendRead hp => exact hl.quiet hp rfl rfl rfl
  | appendWrite hp => exact hl.quiet hp rfl rfl rfl
  | unlock hp => exact hl.unlock hp
  | recoverStart hp => exact hl.quiet hp rfl rfl rfl
  | recoverFail hp => exact hl.quiet hp rfl rfl rfl
  | unavailable hp => exact hl.quiet hp rfl rfl rfl
  | available hp => exact hl.quiet hp rfl rfl rfl
  | rlock hp hw => exact hl.rlock hp hw
  | copy hp => exact hl.quiet hp rfl rfl rfl
  | runlock hp => exact hl.runlock hp
  | loop hp => exact hl.quiet hp rfl rfl rfl
  | recoverEnd hp => exact hl.quiet hp rfl rfl rfl

/-! ## The history -/

/-- `r` is what `f` answers on the store after some prefix of `ops` made between `start` and
`stop`: the call that returned `r` took effect at one point while it ran. -/
def Linearized (ops : List Op) (start stop : Nat) (f : State → Go Bytes) (r : Go Bytes) : Prop :=
  stop ≤ ops.length ∧ ∃ n, start ≤ n ∧ n ≤ stop ∧ r = f (run (ops.take n) .init)

section Linearized

variable {ops : List Op} {start stop : Nat} {f : State → Go Bytes} {r : Go Bytes}

theorem Linearized.append (h : Linearized ops start stop f r) (op : Op) :
    Linearized (ops ++ [op]) start stop f r :=
  let ⟨hs, n, h₁, h₂, hr⟩ := h
  ⟨by rw [List.length_append]; omega, n, h₁, h₂,
    by rw [List.take_append_of_le_length (by omega), hr]⟩

theorem Linearized.map (h : Linearized ops start stop f r) (g : Go Bytes → Go Bytes)
    {f' : State → Go Bytes} (hg : ∀ st, f' st = g (f st)) : Linearized ops start stop f' (g r) :=
  let ⟨hs, n, h₁, h₂, hr⟩ := h
  ⟨hs, n, h₁, h₂, by rw [hg, hr]⟩

theorem Linearized.const {n : Nat} (hn : n ≤ ops.length) (hr : ∀ st, r = f st) :
    Linearized ops n n f r :=
  ⟨hn, n, le_rfl, le_rfl, hr _⟩

end Linearized

def RecoveryOk (env : Env) : Option Recovery → PlatformKeyId → Prop
  | none, _ => True
  | some rc, id => recoverPre env rc.data = .ok (rc.kd, rc.aadBytes) ∧ rc.kd.platformKeyID = id

/-- What a goroutine in phase `p` has seen of the assignments `ops`. A writer in the middle of
`append` holds the store it read; a reader's copy, and the result it returned, are those of the
store after some prefix of `ops` that was made while the call ran. -/
def PhaseOk (env : Env) (ops : List Op) : Phase → Prop
  | .appendWrite _ old => old = (run ops .init).platformKeys
  | .available rc id => RecoveryOk env rc id
  | .rlock rc id start | .copy rc id start =>
    RecoveryOk env rc id ∧ env.available id.alg = true ∧ start ≤ ops.length
  | .runlock rc id start keys | .loop rc id start keys =>
    RecoveryOk env rc id ∧ env.available id.alg = true ∧
      ∃ n, start ≤ n ∧ n ≤ ops.length ∧ keys = (run (ops.take n) .init).platformKeys
  | .returned rc id start stop r =>
    RecoveryOk env rc id ∧ Linearized ops start stop (getPlatformKey env · id) r
  | .recovered data encryptedPayload start stop r =>
    Linearized ops start stop (recoverKeys env · data encryptedPayload) r
  | .lock _ | .wait _ | .assign _ | .appendRead _ | .unlock _ | .wrote _ | .recover _ _ => True

theorem PhaseOk.append {env : Env} {ops : List Op} (op : Op) :
    ∀ {p : Phase}, PhaseOk env ops p → p.holdsLock = false → PhaseOk env (ops ++ [op]) p
  | .rlock .., ⟨hc, ha, hs⟩, _ | .copy .., ⟨hc, ha, hs⟩, _ =>
    ⟨hc, ha, by rw [List.length_append]; omega⟩
  | .runlock .., ⟨hc, ha, n, h₁, h₂, hk⟩, _ | .loop .., ⟨hc, ha, n, h₁, h₂, hk⟩, _ =>
    ⟨hc, ha, n, h₁, by rw [List.length_append]; omega,
      by rw [List.take_append_of_le_length h₂, hk]⟩
  | .returned .., ⟨hc, hl⟩, _ => ⟨hc, hl.append op⟩
  | .recovered data encryptedPayload _ _ _, hl, _ =>
    @Linearized.append _ _ _ (recoverKeys env · data encryptedPayload) _ hl op
  | .available .., hc, _ => hc
  | .lock _, _, _ | .wait _, _, _ | .assign _, _, _ | .appendRead _, _, _ | .unlock _, _, _
  | .wrote _, _, _ | .recover _ _, _, _ => trivial

/-- What the history says about the store and about each goroutine. -/
structure DataInv (env : Env) (s : Sys) : Prop where
  store : s.store = run (s.hist.map Prod.snd) .init
  written : ∀ (j : Nat) p, s.threads[j]? = some p →
    (s.hist.filter (·.1 = j)).map Prod.snd = p.written
  phase : ∀ (j : Nat) p, s.threads[j]? = some p → PhaseOk env (s.hist.map Prod.snd) p

section DataInv

variable {env : Env} {s : Sys} {i : Nat} {p q : Phase}

theorem DataInv.move (hd : DataInv env s) (hi : s.threads[i]? = some p) (mu : RWMutex)
    (hw : q.written = p.written) (hq : PhaseOk env (s.hist.map Prod.snd) q) :
    DataInv env { s.moveTo i q with mu := mu } where
  store := hd.store
  written := forall_set hi (fun j x _ => hd.written j x) (hw ▸ hd.written i p hi)
  phase := forall_set hi (fun j x _ => hd.phase j x) hq

theorem DataInv.write {op : Op} {st : State} (hl : LockInv s.mu s.threads)
    (hd : DataInv env s) (hi : s.threads[i]? = some p) (hp : p.holdsLock = true)
    (hw : q.written = p.written ++ [op]) (hq : PhaseOk env (s.hist.map Prod.snd ++ [op]) q)
    (hst : st = op.apply (run (s.hist.map Prod.snd) .init)) :
    DataInv env { s.moveTo i q with store := st, hist := s.hist ++ [(i, op)] } where
  store := by simp [hst]
  written := forall_set hi
    (fun j x hj hx => by simpa [Ne.symm hj] using hd.written j x hx)
    (by simpa [hw] using hd.written i p hi)
  phase := forall_set hi
    (fun j x hj hx => by
      simpa using (hd.phase j x hx).append op
        (Bool.eq_false_iff.2 fun h => hj (hl.unique hi hp hx h)))
    (by simpa using hq)

theorem DataInv.step {s' : Sys} (hl : LockInv s.mu s.threads) (hd : DataInv env s)
    (h : Step env s i s') : DataInv env s' := by
  have hlen : (s.hist.map Prod.snd).length = s.hist.length := List.length_map _ _
  cases h with
  | lock hp => exact hd.move hp _ rfl trivial
  | enterSet hp => exact hd.move hp s.mu rfl trivial
  | enterAdd hp => exact hd.move hp s.mu rfl trivial
  | assign hp => exact hd.write hl hp rfl rfl trivial rfl
  | appendRead hp => exact hd.move hp s.mu rfl (congrArg State.platformKeys hd.store)
  | @appendWrite keys old hp =>
    have hold : old = (run (s.hist.map Prod.snd) .init).platformKeys := hd.phase _ _ hp
    exact hd.write hl hp rfl rfl trivial (by simp [Op.apply, addPlatformKeys, hold])
  | unlock hp => exact hd.move hp _ rfl trivial
  | recoverStart hp hpre => exact hd.move hp s.mu rfl ⟨hpre, rfl⟩
  | recoverFail hp hpre =>
    exact hd.move hp s.mu rfl
      (.const hlen.ge fun st => (recoverKeys_of_recoverPre_error hpre st _).symm)
  | unavailable hp ha =>
    exact hd.move hp s.mu rfl
      ⟨hd.phase _ _ hp, .const hlen.ge fun st => by simp [getPlatformKey, ha]⟩
  | available hp ha => exact hd.move hp s.mu rfl ⟨hd.phase _ _ hp, ha, hlen.ge⟩
  | rlock hp => exact hd.move hp _ rfl (hd.phase _ _ hp :)
  | copy hp =>
    obtain ⟨hc, ha, hs⟩ := hd.phase _ _ hp
    exact hd.move hp s.mu rfl ⟨hc, ha, _, hs, le_rfl, by rw [List.take_length, hd.store]⟩
  | runlock hp => exact hd.move hp _ rfl (hd.phase _ _ hp :)
  | loop hp =>
    obtain ⟨hc, ha, n, h₁, h₂, hk⟩ := hd.phase _ _ hp
    exact hd.move hp s.mu rfl
      ⟨hc, hlen.ge, n, h₁, by omega, by simp [getPlatformKey, ha, hk]⟩
  | recoverEnd hp =>
    obtain ⟨⟨hpre, rfl⟩, hr⟩ := hd.phase _ _ hp
    exact hd.move hp s.mu rfl
      (hr.map (recoverPost env _ _ _) fun st => recoverKeys_of_recoverPre hpre st _)

end DataInv

/-! ## Every reachable state -/

structure Inv (env : Env) (s : Sys) : Prop where
  lock : LockInv s.mu s.threads
  data : DataInv env s

theorem countP_start (calls : List Call) (f : Phase → Bool) (hf : ∀ c, f (Call.start c) = false) :
    (calls.map Call.start).countP f = 0 := by
  simp [List.countP_eq_zero, hf]

theorem Inv.init (env : Env) (calls : List Call) : Inv env (Sys.init calls) := by
  have hL := countP_start calls Phase.holdsLock fun c => by cases c <;> rfl
  have hW := countP_start calls Phase.inWrite fun c => by cases c <;> rfl
  have hR := countP_start calls Phase.holdsRLock fun c => by cases c <;> rfl
  have hstart : ∀ (j : Nat) p, (calls.map Call.start)[j]? = some p → ∃ c, p = Call.start c := by
    intro j p hj
    obtain ⟨c, -, rfl⟩ := Option.map_eq_some'.1 (List.getElem?_map _ _ _ ▸ hj)
    exact ⟨c, rfl⟩
  refine ⟨⟨by simp [Sys.init, hL], by simp [Sys.init, hL], hR.symm, .inl hW⟩, ⟨rfl, ?_, ?_⟩⟩
  · intro j p hj; obtain ⟨c, rfl⟩ := hstart j p hj; cases c <;> rfl
  · intro j p hj; obtain ⟨c, rfl⟩ := hstart j p hj; cases c <;> trivial

theorem Inv.step {env : Env} {s s' : Sys} {i : Nat} (hi : Inv env s) (h : Step env s i s') :
    Inv env s' :=
  ⟨hi.lock.step h, hi.data.step hi.lock h⟩

theorem reachable_inv {env : Env} {calls : List Call} {s : Sys} (h : Reachable env calls s) :
    Inv env s :=
  Reachable.induction (Inv.init env calls) (fun _ _ _ hi hs => hi.step hs) h

/-! ## What the lock buys -/

section Exclusion

variable {mu : RWMutex} {ts : List Phase} {i j : Nat} {p q : Phase}

theorem LockInv.exclusive (hl : LockInv mu ts) (hi : ts[i]? = some p) (hp : p.inWrite = true)
    (hj : ts[j]? = some q) (hji : j ≠ i) : q.holdsLock = false ∧ q.holdsRLock = false :=
  ⟨Bool.eq_false_iff.2 fun hq => hji (hl.unique hi (Phase.holdsLock_of_inWrite hp) hj hq),
    Bool.eq_false_iff.2 fun hq => by
      have := countP_pos_of_getElem? hi hp
      have := countP_pos_of_getElem? hj hq
      have := hl.excl
      omega⟩

theorem Phase.inWrite_of_writesKeys (h : p.writesKeys = true) : p.inWrite = true := by
  cases p <;> simp_all [Phase.writesKeys, Phase.inWrite]

theorem Phase.inWrite_or_holdsRLock (h : p.accessesKeys = true) :
    p.inWrite = true ∨ p.holdsRLock = true := by
  cases p <;> simp_all [Phase.accessesKeys, Phase.inWrite, Phase.holdsRLock]

end Exclusion

section Reachable

variable {env : Env} {calls : List Call} {s : Sys} {i j : Nat} {p q : Phase}

theorem reachable_exclusive (h : Reachable env calls s) (hi : s.threads[i]? = some p)
    (hp : p.inWrite = true) (hj : s.threads[j]? = some q) (hji : j ≠ i) :
    q.holdsLock = false ∧ q.holdsRLock = false :=
  (reachable_inv h).lock.exclusive hi hp hj hji

theorem reachable_exclusive_reference :
    Reachable Reference.env [.write (.add [[1]]), .get ⟨5, [], [1]⟩]
      ⟨⟨[]⟩, ⟨true, 0⟩, [.appendWrite [[1]] [], .rlock none ⟨5, [], [1]⟩ 0], []⟩ ∧
    ([.appendWrite [[1]] [], .rlock none ⟨5, [], [1]⟩ 0] : List Phase)[0]? =
      some (.appendWrite [[1]] []) ∧
    (Phase.appendWrite [[1]] []).inWrite = true ∧
    ([.appendWrite [[1]] [], .rlock none ⟨5, [], [1]⟩ 0] : List Phase)[1]? =
      some (.rlock none ⟨5, [], [1]⟩ 0) ∧ (1 : Nat) ≠ 0 ∧
    ((Phase.rlock none ⟨5, [], [1]⟩ 0).holdsLock = false ∧
      (Phase.rlock none ⟨5, [], [1]⟩ 0).holdsRLock = false) :=
  have h : Reachable Reference.env [.write (.add [[1]]), .get ⟨5, [], [1]⟩]
      ⟨⟨[]⟩, ⟨true, 0⟩, [.appendWrite [[1]] [], .rlock none ⟨5, [], [1]⟩ 0], []⟩ :=
    ⟨[1, 0, 0, 0], rfl⟩
  ⟨h, rfl, rfl, rfl, by decide, @reachable_exclusive _ _ _ 0 1 _ _ h rfl rfl rfl (by decide)⟩

theorem reachable_race_free (h : Reachable env calls s) (hi : s.threads[i]? = some p)
    (hp : p.writesKeys = true) (hj : s.threads[j]? = some q) (hji : j ≠ i) :
    q.accessesKeys = false := by
  obtain ⟨hL, hR⟩ := (reachable_inv h).lock.exclusive hi (Phase.inWrite_of_writesKeys hp) hj hji
  refine Bool.eq_false_iff.2 fun hq => ?_
  rcases Phase.inWrite_or_holdsRLock hq with hw | hr
  · simp [Phase.holdsLock_of_inWrite hw] at hL
  · simp [hr] at hR

theorem reachable_race_free_reference :
    Reachable Reference.env [.write (.add [[1]]), .get ⟨5, [], [1]⟩]
      ⟨⟨[]⟩, ⟨true, 0⟩, [.appendWrite [[1]] [], .rlock none ⟨5, [], [1]⟩ 0], []⟩ ∧
    ([.appendWrite [[1]] [], .rlock none ⟨5, [], [1]⟩ 0] : List Phase)[0]? =
      some (.appendWrite [[1]] []) ∧
    (Phase.appendWrite [[1]] []).writesKeys = true ∧
    ([.appendWrite [[1]] [], .rlock none ⟨5, [], [1]⟩ 0] : List Phase)[1]? =
      some (.rlock none ⟨5, [], [1]⟩ 0) ∧ (1 : Nat) ≠ 0 ∧
    (Phase.rlock none ⟨5, [], [1]⟩ 0).accessesKeys = false :=
  have h : Reachable Reference.env [.write (.add [[1]]), .get ⟨5, [], [1]⟩]
      ⟨⟨[]⟩, ⟨true, 0⟩, [.appendWrite [[1]] [], .rlock none ⟨5, [], [1]⟩ 0], []⟩ :=
    ⟨[1, 0, 0, 0], rfl⟩
  ⟨h, rfl, rfl, rfl, by decide, @reachable_race_free _ _ _ 0 1 _ _ h rfl rfl rfl (by decide)⟩

theorem reachable_unlock_held (h : Reachable env calls s) (hi : s.threads[i]? = some p) :
    (∀ op, p = .unlock op → s.mu.writer = true ∧ s.mu.readers = 0) ∧
    (∀ rc id start keys, p = .runlock rc id start keys → 0 < s.mu.readers) := by
  have hl := (reachable_inv h).lock
  refine ⟨fun op hp => ?_, fun rc id start keys hp => ?_⟩ <;> subst hp
  · have := countP_pos_of_getElem? hi (rfl : (Phase.unlock op).inWrite = true)
    have := countP_inWrite_le s.threads
    have := hl.excl
    exact ⟨hl.writer.2 (by omega), by rw [hl.readers]; omega⟩
  · rw [hl.readers]
    exact countP_pos_of_getElem? hi rfl

theorem reachable_unlock_held_reference :
    Reachable Reference.env [.write (.add [[1]]), .get ⟨5, [], [1]⟩]
      ⟨⟨[]⟩, ⟨true, 1⟩, [.wait (.add [[1]]), .runlock none ⟨5, [], [1]⟩ 0 []], []⟩ ∧
    ([.wait (.add [[1]]), .runlock none ⟨5, [], [1]⟩ 0 []] : List Phase)[1]? =
      some (.runlock none ⟨5, [], [1]⟩ 0 []) ∧
    ((∀ op, Phase.runlock none ⟨5, [], [1]⟩ 0 [] = .unlock op → true = true ∧ 1 = 0) ∧
      (∀ rc id start keys,
        Phase.runlock none ⟨5, [], [1]⟩ 0 [] = .runlock rc id start keys → 0 < 1)) :=
  have h : Reachable Reference.env [.write (.add [[1]]), .get ⟨5, [], [1]⟩]
      ⟨⟨[]⟩, ⟨true, 1⟩, [.wait (.add [[1]]), .runlock none ⟨5, [], [1]⟩ 0 []], []⟩ :=
    ⟨[1, 1, 1, 0], rfl⟩
  ⟨h, rfl, @reachable_unlock_held _ _ _ 1 _ h rfl⟩

theorem reachable_get {rc : Option Recovery} {id : PlatformKeyId} {start stop : Nat}
    {r : Go Bytes} (h : Reachable env calls s)
    (hi : s.threads[i]? = some (.returned rc id start stop r)) :
    stop ≤ s.hist.length ∧ ∃ n, start ≤ n ∧ n ≤ stop ∧
      r = getPlatformKey env (run ((s.hist.map Prod.snd).take n) .init) id := by
  simpa only [Linearized, List.length_map] using ((reachable_inv h).data.phase i _ hi).2

theorem reachable_recover {data : PlatformKeyData} {encryptedPayload : Bytes} {start stop : Nat}
    {r : Go Bytes} (h : Reachable env calls s)
    (hi : s.threads[i]? = some (.recovered data encryptedPayload start stop r)) :
    stop ≤ s.hist.length ∧ ∃ n, start ≤ n ∧ n ≤ stop ∧
      r = recoverKeys env (run ((s.hist.map Prod.snd).take n) .init) data encryptedPayload := by
  simpa only [PhaseOk, Linearized, List.length_map] using (reachable_inv h).data.phase i _ hi

/-! ## Progress -/

theorem exists_step_iff (hi : s.threads[i]? = some p) :
    (∃ s', step env s i = some s') ↔ (stepAt env s i p).isSome := by
  simp [step, hi, Option.isSome_iff_exists]

theorem exists_step_of_inWrite (hi : s.threads[i]? = some p) (hp : p.inWrite = true) :
    ∃ s', step env s i = some s' := by
  rw [exists_step_iff hi]
  cases p <;> first | rfl | cases hp

theorem exists_step_of_holdsRLock (hi : s.threads[i]? = some p) (hp : p.holdsRLock = true) :
    ∃ s', step env s i = some s' := by
  rw [exists_step_iff hi]
  cases p <;> first | rfl | cases hp

theorem exists_step_of_holdsLock (hl : LockInv s.mu s.threads) (hi : s.threads[i]? = some p)
    (hp : p.holdsLock = true) : ∃ j s', step env s j = some s' := by
  cases hw : p.inWrite
  · obtain ⟨op, rfl⟩ : ∃ op, p = .wait op := by
      cases p <;> simp_all [Phase.holdsLock, Phase.inWrite]
    cases hr : s.mu.readers with
    | zero => exact ⟨i, (exists_step_iff hi).2 (by cases op <;> simp [stepAt, hr])⟩
    | succ n =>
      obtain ⟨k, q, hk, hq⟩ := exists_getElem?_of_countP_pos
        (show 0 < s.threads.countP Phase.holdsRLock by rw [← hl.readers, hr]; omega)
      exact ⟨k, exists_step_of_holdsRLock hk hq⟩
  · exact ⟨i, exists_step_of_inWrite hi hw⟩

/-- While a call has not returned, some goroutine can move: the lock never deadlocks. -/
theorem LockInv.progress (hl : LockInv s.mu s.threads) (hi : s.threads[i]? = some p)
    (hp : p.done = false) : ∃ j s', Plainkey.step env s j = some s' := by
  have held : s.mu.writer = true → ∃ j s', Plainkey.step env s j = some s' := fun hw => by
    obtain ⟨j, q, hj, hq⟩ := exists_getElem?_of_countP_pos (hl.writer.1 hw)
    exact exists_step_of_holdsLock hl hj hq
  cases p with
  | lock | rlock =>
    cases hw : s.mu.writer
    · exact ⟨i, (exists_step_iff hi).2 (by simp [stepAt, hw])⟩
    · exact held hw
  | wait => exact exists_step_of_holdsLock hl hi rfl
  | recover | available => exact ⟨i, (exists_step_iff hi).2 (by simp only [stepAt]; split <;> rfl)⟩
  | returned rc =>
    cases rc
    · cases hp
    · exact ⟨i, (exists_step_iff hi).2 rfl⟩
  | wrote | recovered => cases hp
  | assign | appendRead | appendWrite | unlock | copy | runlock | loop =>
    exact ⟨i, (exists_step_iff hi).2 rfl⟩

theorem reachable_progress (h : Reachable env calls s) (hi : s.threads[i]? = some p)
    (hp : p.done = false) : ∃ j s', step env s j = some s' :=
  (reachable_inv h).lock.progress hi hp

theorem reachable_progress_reference :
    Reachable Reference.env [.write (.add [[1]]), .get ⟨5, [], [1]⟩]
      ⟨⟨[]⟩, ⟨true, 1⟩, [.wait (.add [[1]]), .copy none ⟨5, [], [1]⟩ 0], []⟩ ∧
    ([.wait (.add [[1]]), .copy none ⟨5, [], [1]⟩ 0] : List Phase)[0]? =
      some (.wait (.add [[1]])) ∧
    (Phase.wait (.add [[1]])).done = false ∧
    ∃ j s', step Reference.env
      ⟨⟨[]⟩, ⟨true, 1⟩, [.wait (.add [[1]]), .copy none ⟨5, [], [1]⟩ 0], []⟩ j = some s' :=
  have h : Reachable Reference.env [.write (.add [[1]]), .get ⟨5, [], [1]⟩]
      ⟨⟨[]⟩, ⟨true, 1⟩, [.wait (.add [[1]]), .copy none ⟨5, [], [1]⟩ 0], []⟩ :=
    ⟨[1, 1, 0], rfl⟩
  ⟨h, rfl, rfl, @reachable_progress _ _ _ 0 _ h rfl rfl⟩

end Reachable

end Plainkey
