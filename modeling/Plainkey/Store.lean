import Plainkey.Reference

/-!
# Plainkey.Store

The platform key store and the key selector.

`platformKeys` is package state behind `platformKeysMu`. `SetPlatformKeys` and `AddPlatformKeys`
hold the write lock for the whole assignment, and `getPlatformKey` holds the read lock while it
copies the slice, so each call acts on the state at one point and a run of writes is a list of
`Op`s applied in turn.

* `run_platformKeys`: after any run of writes from the initial state, the store holds
  `specKeys ops`, the keys of the last `SetPlatformKeys` call followed by those of every later
  `AddPlatformKeys` call.
* `getPlatformKey_eq`: the loop of `getPlatformKey` refines `selectKey`, the first-match rule of
  spec §4.6.
* `getPlatformKey_run`: over any run, the selector returns the first key of `specKeys ops` that
  the id names, fails with "no key available" exactly when none does, and keeps its choice across
  later `AddPlatformKeys` calls.
* `getPlatformKey_hmac`: when no other stored key collides with `k`, the id built from `k` selects
  `k` exactly when `k` is stored.
-/

namespace Plainkey

structure State where
  platformKeys : List Bytes
deriving DecidableEq, Repr

def State.init : State := ⟨[]⟩

def setPlatformKeys (keys : List Bytes) (s : State) : State := { s with platformKeys := keys }

def addPlatformKeys (keys : List Bytes) (s : State) : State :=
  { s with platformKeys := s.platformKeys ++ keys }

inductive Op where
  | set (keys : List Bytes)
  | add (keys : List Bytes)

namespace Op

def apply : Op → State → State
  | set keys => setPlatformKeys keys
  | add keys => addPlatformKeys keys

def keys : Op → List Bytes
  | set keys | add keys => keys

def isAdd : Op → Bool
  | set _ => false
  | add _ => true

end Op

/-- The state after the writes `ops`, made one after another from `s`. -/
def run (ops : List Op) (s : State) : State := ops.foldl (fun s op => op.apply s) s

/-- The platform keys after `ops` as the spec lists them: the keys of the last `set` (none if
there was none), then the keys of each later `add`, in call order. -/
def specKeys (ops : List Op) : List Bytes :=
  (match ops.reverse.dropWhile Op.isAdd with
    | .set keys :: _ => keys
    | _ => []) ++
  (ops.reverse.takeWhile Op.isAdd).reverse.flatMap Op.keys

@[simp] theorem run_append_singleton (ops : List Op) (op : Op) (s : State) :
    run (ops ++ [op]) s = op.apply (run ops s) := by
  simp [run]

@[simp] theorem specKeys_append_set (ops : List Op) (keys : List Bytes) :
    specKeys (ops ++ [.set keys]) = keys := by
  simp [specKeys, Op.isAdd]

@[simp] theorem specKeys_append_add (ops : List Op) (keys : List Bytes) :
    specKeys (ops ++ [.add keys]) = specKeys ops ++ keys := by
  simp [specKeys, Op.isAdd, Op.keys]

theorem specKeys_append_adds (ops : List Op) (adds : List (List Bytes)) :
    specKeys (ops ++ adds.map .add) = specKeys ops ++ adds.flatten := by
  induction adds generalizing ops with
  | nil => simp
  | cons keys adds ih =>
    rw [List.map_cons, ← List.singleton_append, ← List.append_assoc, ih, specKeys_append_add]
    simp

theorem run_platformKeys (ops : List Op) : (run ops .init).platformKeys = specKeys ops := by
  induction ops using List.reverseRecOn with
  | nil => rfl
  | append_singleton ops op ih =>
    cases op <;> simp [Op.apply, setPlatformKeys, addPlatformKeys, ih]

/-! ## The selector -/

/-- `getPlatformKey`. The keys are read once, under the read lock, and the loop runs over that
snapshot. -/
def getPlatformKey (env : Env) (s : State) (id : PlatformKeyId) : Go Bytes :=
  if !env.available id.alg then .err (.new "digest algorithm unavailable")
  else loop s.platformKeys
where
  loop : List Bytes → Go Bytes
    | [] => .err (.new "no key available")
    | key :: keys => do
      let sum ← env.hmacSum id.alg key id.salt
      if sum = id.digest then .ok key else loop keys

/-- The key selector of spec §4.6: the first stored key that `id` names. -/
def selectKey (env : Env) (keys : List Bytes) (id : PlatformKeyId) : Except Error Bytes :=
  if !env.available id.alg then .error (.new "digest algorithm unavailable")
  else match keys.find? (fun key => decide (env.Matches id key)) with
    | some key => .ok key
    | none => .error (.new "no key available")

theorem getPlatformKey_loop_eq (env : Env) (id : PlatformKeyId) (h : env.available id.alg = true)
    (keys : List Bytes) :
    getPlatformKey.loop env id keys = .ofExcept (selectKey env keys id) := by
  induction keys with
  | nil => simp [getPlatformKey.loop, selectKey, h]
  | cons key keys ih =>
    by_cases hk : env.Matches id key
    · simp [getPlatformKey.loop, selectKey, h, env.hmacSum_of_available h, hk, hk.symm]
    · simp only [getPlatformKey.loop, env.hmacSum_of_available h, Go.ok_bind, ih]
      simp [selectKey, h, hk, show env.hmac id.alg key id.salt ≠ id.digest from hk]

theorem getPlatformKey_eq (env : Env) (s : State) (id : PlatformKeyId) :
    getPlatformKey env s id = .ofExcept (selectKey env s.platformKeys id) := by
  cases h : env.available id.alg
  · simp [getPlatformKey, selectKey, h]
  · simp [getPlatformKey, h, getPlatformKey_loop_eq env id h]

/-! ## First match over a run -/

/-- `key` is the first element of `keys` that satisfies `p`. -/
def IsFirst (p : Bytes → Prop) (keys : List Bytes) (key : Bytes) : Prop :=
  ∃ pre post, keys = pre ++ key :: post ∧ p key ∧ ∀ k ∈ pre, ¬ p k

theorem find?_eq_some_iff_isFirst {p : Bytes → Prop} [DecidablePred p] {keys : List Bytes}
    {key : Bytes} : keys.find? (fun k => decide (p k)) = some key ↔ IsFirst p keys key := by
  simp only [List.find?_eq_some, decide_eq_true_eq, Bool.not_eq_true', decide_eq_false_iff_not]
  exact ⟨fun ⟨hk, pre, post, h, hpre⟩ => ⟨pre, post, h, hk, hpre⟩,
    fun ⟨pre, post, h, hk, hpre⟩ => ⟨hk, pre, post, h, hpre⟩⟩

theorem selectKey_eq_ok {env : Env} {keys : List Bytes} {id : PlatformKeyId} {key : Bytes} :
    selectKey env keys id = .ok key ↔
      env.available id.alg = true ∧ IsFirst (env.Matches id) keys key := by
  rw [← find?_eq_some_iff_isFirst]
  cases h : env.available id.alg
  · simp [selectKey, h]
  · rcases hf : keys.find? (fun k => decide (env.Matches id k)) with _ | k <;>
      simp [selectKey, h, hf]

theorem selectKey_eq_noKey {env : Env} {keys : List Bytes} {id : PlatformKeyId}
    (h : env.available id.alg = true) :
    selectKey env keys id = .error (.new "no key available") ↔
      ∀ key ∈ keys, ¬ env.Matches id key := by
  simp only [selectKey, h, Bool.not_true, Bool.false_eq_true, if_false]
  rcases hf : keys.find? (fun k => decide (env.Matches id k)) with _ | k
  · simpa using List.find?_eq_none.1 hf
  · simpa using ⟨k, List.mem_of_find?_eq_some hf, by simpa using List.find?_some hf⟩

theorem selectKey_ok_or_noKey {env : Env} {id : PlatformKeyId} (h : env.available id.alg = true)
    (keys : List Bytes) :
    (∃ key, selectKey env keys id = .ok key) ∨
      selectKey env keys id = .error (.new "no key available") := by
  simp only [selectKey, h, Bool.not_true, Bool.false_eq_true, if_false]
  split <;> simp

theorem selectKey_append_of_ok {env : Env} {keys : List Bytes} {id : PlatformKeyId} {key : Bytes}
    (more : List Bytes) (hk : selectKey env keys id = .ok key) :
    selectKey env (keys ++ more) id = .ok key := by
  obtain ⟨h, pre, post, rfl, hm, hpre⟩ := selectKey_eq_ok.1 hk
  exact selectKey_eq_ok.2 ⟨h, pre, post ++ more, by simp, hm, hpre⟩

theorem selectKey_append (env : Env) (keys more : List Bytes) (id : PlatformKeyId) :
    selectKey env (keys ++ more) id = selectKey env keys id ∨
      selectKey env keys id = .error (.new "no key available") := by
  cases h : env.available id.alg
  · simp [selectKey, h]
  · rcases hf : keys.find? (fun k => decide (env.Matches id k)) with _ | k
    · simp [selectKey, h, hf]
    · simp [selectKey, h, hf, List.find?_append]

theorem getPlatformKey_run (env : Env) (ops : List Op) (id : PlatformKeyId)
    (h : env.available id.alg = true) :
    (∀ key, getPlatformKey env (run ops .init) id = .ok key ↔
      IsFirst (env.Matches id) (specKeys ops) key) ∧
    (getPlatformKey env (run ops .init) id = .err (.new "no key available") ↔
      ∀ key ∈ specKeys ops, ¬ env.Matches id key) ∧
    ∀ key (adds : List (List Bytes)), getPlatformKey env (run ops .init) id = .ok key →
      getPlatformKey env (run (ops ++ adds.map .add) .init) id = .ok key := by
  simp only [getPlatformKey_eq, run_platformKeys, specKeys_append_adds, ← Go.ofExcept_ok,
    ← Go.ofExcept_error, Go.ofExcept_inj]
  exact ⟨fun _ => selectKey_eq_ok.trans (and_iff_right h), selectKey_eq_noKey h,
    fun _ adds hk => selectKey_append_of_ok _ hk⟩

theorem getPlatformKey_run_reference :
    Reference.env.available 5 = true ∧
    ((∀ key, getPlatformKey Reference.env (run [.set [[1], [2]], .add [[2]]] .init) ⟨5, [], [2]⟩ =
        .ok key ↔
        IsFirst (Reference.env.Matches ⟨5, [], [2]⟩) (specKeys [.set [[1], [2]], .add [[2]]]) key) ∧
      (getPlatformKey Reference.env (run [.set [[1], [2]], .add [[2]]] .init) ⟨5, [], [2]⟩ =
        .err (.new "no key available") ↔
        ∀ key ∈ specKeys [.set [[1], [2]], .add [[2]]], ¬ Reference.env.Matches ⟨5, [], [2]⟩ key) ∧
      ∀ key (adds : List (List Bytes)),
        getPlatformKey Reference.env (run [.set [[1], [2]], .add [[2]]] .init) ⟨5, [], [2]⟩ =
          .ok key →
        getPlatformKey Reference.env (run ([.set [[1], [2]], .add [[2]]] ++ adds.map .add) .init)
          ⟨5, [], [2]⟩ = .ok key) :=
  ⟨by decide,
    getPlatformKey_run Reference.env [.set [[1], [2]], .add [[2]]] ⟨5, [], [2]⟩ (by decide)⟩

/-- Spec P2: when no other stored key collides with `k` under the HMAC of the salt, the selector
picks `k` exactly when `k` is stored, and fails with "no key available" when it is not. -/
theorem getPlatformKey_hmac (env : Env) (s : State) (alg : HashAlg) (salt k : Bytes)
    (h : env.available alg = true)
    (hinj : ∀ k' ∈ s.platformKeys, env.hmac alg k' salt = env.hmac alg k salt → k' = k) :
    (getPlatformKey env s ⟨alg, salt, env.hmac alg k salt⟩ = .ok k ↔ k ∈ s.platformKeys) ∧
    (k ∉ s.platformKeys →
      getPlatformKey env s ⟨alg, salt, env.hmac alg k salt⟩ = .err (.new "no key available")) := by
  simp only [getPlatformKey_eq, ← Go.ofExcept_ok, ← Go.ofExcept_error, Go.ofExcept_inj]
  refine ⟨⟨fun hk => ?_, fun hk => ?_⟩, fun hk => (selectKey_eq_noKey h).2 fun k' hk' hm => ?_⟩
  · obtain ⟨-, pre, post, hs, -⟩ := selectKey_eq_ok.1 hk
    simp [hs]
  · rcases @selectKey_ok_or_noKey env ⟨alg, salt, env.hmac alg k salt⟩ h s.platformKeys with
      ⟨k', hk'⟩ | hno
    · obtain ⟨-, pre, post, hs, hm, -⟩ := selectKey_eq_ok.1 hk'
      obtain rfl := hinj k' (by simp [hs]) hm
      exact hk'
    · exact absurd rfl ((selectKey_eq_noKey h).1 hno k hk)
  · exact hk (hinj k' hk' hm ▸ hk')

theorem getPlatformKey_hmac_reference :
    getPlatformKey Reference.env ⟨[[2], [1]]⟩ ⟨5, [9], Reference.env.hmac 5 [1] [9]⟩ = .ok [1] ∧
    getPlatformKey Reference.env ⟨[[2]]⟩ ⟨5, [9], Reference.env.hmac 5 [1] [9]⟩ =
      .err (.new "no key available") :=
  ⟨(getPlatformKey_hmac Reference.env ⟨[[2], [1]]⟩ 5 [9] [1] rfl (by decide)).1.2 (by decide),
    (getPlatformKey_hmac Reference.env ⟨[[2]]⟩ 5 [9] [1] rfl (by decide)).2 (by decide)⟩

end Plainkey
