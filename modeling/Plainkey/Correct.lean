import Plainkey.Recover

/-!
# Plainkey.Correct

What `RecoverKeys` guarantees, over every store, handle and payload.

* `recoverKeys_sealed`: the round trip. A payload sealed under the key derived from a platform key
  `k` and the salt prefix of a nonce longer than `symKeySaltSize`, with the AAD of the call, is
  recovered bit for bit when `k` is the first stored key the handle's id names.
* `recoverKeys_eq_ok`: the converse. `RecoverKeys` returns a plaintext only as GCM opens it under
  the key derived from the first stored key the id names, with the AAD of the call.
* `recoverKeys_failure_kind`: with a nonce longer than `symKeySaltSize`, every failure is invalid
  data. With a nonce of exactly `symKeySaltSize` bytes, the GCM nonce is empty and the call fails
  with the plain error "cannot create AEAD" as soon as the AAD and the key are there.
* `recoverKeys_run_adds`: `AddPlatformKeys` calls change no answer of `RecoverKeys` other than a
  failure for want of a key.
-/

namespace Plainkey

theorem recoverKeys_sealed (env : Env) (gcmSeal : (key nonce plaintext aad : Bytes) → Bytes)
    (marshalKeyData : KeyData → Bytes)
    (s : State) (k plaintext : Bytes) (version generation : Int) (kdfAlg alg : HashAlg)
    (authMode : AuthMode) (salt nonce aadBytes : Bytes)
    (hOpen : env.gcmOpen (env.deriveAESKey k (nonce.take env.symKeySaltSize))
      (nonce.drop env.symKeySaltSize)
      (gcmSeal (env.deriveAESKey k (nonce.take env.symKeySaltSize))
        (nonce.drop env.symKeySaltSize) plaintext aadBytes) aadBytes = .ok plaintext)
    (hJson : env.unmarshalKeyData
      (marshalKeyData ⟨version, ⟨alg, salt, env.hmac alg k salt⟩, nonce⟩) =
        .ok ⟨version, ⟨alg, salt, env.hmac alg k salt⟩, nonce⟩)
    (halg : env.available alg = true) (hnonce : env.symKeySaltSize < nonce.length)
    (haad : env.marshalAAD ⟨version, generation, kdfAlg, authMode⟩ = .ok aadBytes)
    (hfirst : ∃ pre post, s.platformKeys = pre ++ k :: post ∧
      ∀ k' ∈ pre, env.hmac alg k' salt ≠ env.hmac alg k salt) :
    recoverKeys env s
      ⟨generation, marshalKeyData ⟨version, ⟨alg, salt, env.hmac alg k salt⟩, nonce⟩, kdfAlg,
        authMode⟩
      (gcmSeal (env.deriveAESKey k (nonce.take env.symKeySaltSize))
        (nonce.drop env.symKeySaltSize) plaintext aadBytes) = .ok plaintext := by
  obtain ⟨pre, post, hs, hpre⟩ := hfirst
  have hsel : selectKey env s.platformKeys ⟨alg, salt, env.hmac alg k salt⟩ = .ok k :=
    selectKey_eq_ok.2 ⟨halg, pre, post, hs, rfl, hpre⟩
  rw [recoverKeys_eq _ _ _ _ fun kd h => by rw [hJson] at h; cases h; exact hnonce.ne']
  simp [recoverSpec, hJson, not_lt.2 hnonce.le, haad, hsel, hOpen]

theorem recoverKeys_sealed_reference :
    Reference.env.available 5 = true ∧
    Reference.env.symKeySaltSize < (List.replicate 28 7).length ∧
    Reference.env.marshalAAD ⟨1, 1, 5, 0⟩ =
      .ok (Reference.encodeInt 1 ++ Reference.encodeInt 1 ++ Reference.encodeNat 5 ++ [0]) ∧
    (∃ pre post, (⟨[[2], [1]]⟩ : State).platformKeys = pre ++ [1] :: post ∧
      ∀ k' ∈ pre, Reference.env.hmac 5 k' [9] ≠ Reference.env.hmac 5 [1] [9]) ∧
    recoverKeys Reference.env ⟨[[2], [1]]⟩
      ⟨1, Reference.marshalKeyData
        ⟨1, ⟨5, [9], Reference.env.hmac 5 [1] [9]⟩, List.replicate 28 7⟩, 5, 0⟩
      (Reference.gcmSeal
        (Reference.env.deriveAESKey [1]
          ((List.replicate 28 7).take Reference.env.symKeySaltSize))
        ((List.replicate 28 7).drop Reference.env.symKeySaltSize) [42]
        (Reference.encodeInt 1 ++ Reference.encodeInt 1 ++ Reference.encodeNat 5 ++ [0])) =
      .ok [42] :=
  have hfirst : ∃ pre post, (⟨[[2], [1]]⟩ : State).platformKeys = pre ++ [1] :: post ∧
      ∀ k' ∈ pre, Reference.env.hmac 5 k' [9] ≠ Reference.env.hmac 5 [1] [9] :=
    ⟨[[2]], [], rfl, by decide⟩
  ⟨rfl, by decide, rfl, hfirst,
    recoverKeys_sealed Reference.env Reference.gcmSeal Reference.marshalKeyData ⟨[[2], [1]]⟩ [1]
      [42] 1 1 5 5 0 [9] (List.replicate 28 7) _ (Reference.open_seal _ _ _ _)
      (Reference.unmarshalKeyData_marshalKeyData _) rfl (by decide) rfl hfirst⟩

/-- The converse of the round trip: `RecoverKeys` returns a plaintext exactly when the handle
decodes with a nonce longer than the salt, the AAD serialises, the id names a stored key under an
available hash, and GCM opens the payload under the key derived from the first such key. -/
theorem recoverKeys_eq_ok (env : Env) (s : State) (data : PlatformKeyData)
    (encryptedPayload p : Bytes) :
    recoverKeys env s data encryptedPayload = .ok p ↔
      ∃ kd aadBytes key, env.unmarshalKeyData data.encodedHandle = .ok kd ∧
        env.symKeySaltSize < kd.nonce.length ∧
        env.marshalAAD ⟨kd.version, data.generation, data.kdfAlg, data.authMode⟩ = .ok aadBytes ∧
        env.available kd.platformKeyID.alg = true ∧
        IsFirst (env.Matches kd.platformKeyID) s.platformKeys key ∧
        env.gcmOpen (env.deriveAESKey key (kd.nonce.take env.symKeySaltSize))
          (kd.nonce.drop env.symKeySaltSize) encryptedPayload aadBytes = .ok p := by
  by_cases hS : ∀ kd, env.unmarshalKeyData data.encodedHandle = .ok kd →
      kd.nonce.length ≠ env.symKeySaltSize
  · rw [recoverKeys_eq _ _ _ _ hS, ← Go.ofExcept_ok, Go.ofExcept_inj, recoverSpec_eq_ok]
    simp only [selectKey_eq_ok]
    constructor
    · rintro ⟨kd, aadBytes, key, hkd, hle, haad, ⟨halg, hfirst⟩, hp⟩
      exact ⟨kd, aadBytes, key, hkd, lt_of_le_of_ne hle (hS kd hkd).symm, haad, halg, hfirst,
        hp⟩
    · rintro ⟨kd, aadBytes, key, hkd, hlt, haad, halg, hfirst, hp⟩
      exact ⟨kd, aadBytes, key, hkd, hlt.le, haad, ⟨halg, hfirst⟩, hp⟩
  · push_neg at hS
    obtain ⟨kd, hkd, hn⟩ := hS
    rw [recoverKeys_of_saltOnlyNonce _ _ _ _ hkd hn, ← Go.ofExcept_ok, Go.ofExcept_inj]
    constructor
    · simp [except_bind_eq_ok]
    · rintro ⟨kd', _, _, hkd', hlt, -⟩
      rw [hkd] at hkd'
      cases hkd'
      omega

theorem recoverKeys_failure_kind (env : Env) (s : State) (data : PlatformKeyData)
    (encryptedPayload : Bytes) {kd : KeyData}
    (hkd : env.unmarshalKeyData data.encodedHandle = .ok kd) :
    (env.symKeySaltSize < kd.nonce.length →
      (∃ p, recoverKeys env s data encryptedPayload = .ok p) ∨
        ∃ cause, recoverKeys env s data encryptedPayload =
          .err (.platformHandler .invalidData cause)) ∧
    (kd.nonce.length = env.symKeySaltSize → ∀ aadBytes key,
      env.marshalAAD ⟨kd.version, data.generation, data.kdfAlg, data.authMode⟩ = .ok aadBytes →
      getPlatformKey env s kd.platformKeyID = .ok key →
      recoverKeys env s data encryptedPayload =
        .err (.wrap "cannot create AEAD" zeroNonceSizeError)) := by
  refine ⟨fun hn => ?_, fun hn aadBytes key haad hkey => ?_⟩
  · rw [recoverKeys_eq _ _ _ _ fun kd' h => by rw [hkd] at h; cases h; exact hn.ne']
    rcases recoverSpec_ok_or_invalidData env s.platformKeys data encryptedPayload with
      ⟨p, hp⟩ | ⟨cause, hc⟩
    · exact .inl ⟨p, by rw [hp]; rfl⟩
    · exact .inr ⟨cause, by rw [hc]; rfl⟩
  · rw [getPlatformKey_eq, ← Go.ofExcept_ok, Go.ofExcept_inj] at hkey
    rw [recoverKeys_of_saltOnlyNonce env s data encryptedPayload hkd hn]
    simp [haad, hkey]

theorem recoverKeys_failure_kind_reference :
    ((∃ p, recoverKeys Reference.env ⟨[[1]]⟩
        ⟨0, Reference.marshalKeyData ⟨0, ⟨5, [], [1]⟩, List.replicate 28 0⟩, 5, 0⟩ [] = .ok p) ∨
      ∃ cause, recoverKeys Reference.env ⟨[[1]]⟩
        ⟨0, Reference.marshalKeyData ⟨0, ⟨5, [], [1]⟩, List.replicate 28 0⟩, 5, 0⟩ [] =
          .err (.platformHandler .invalidData cause)) ∧
    recoverKeys Reference.env ⟨[[1]]⟩
        ⟨0, Reference.marshalKeyData ⟨0, ⟨5, [], [1]⟩, List.replicate 16 0⟩, 5, 0⟩ [] =
      .err (.wrap "cannot create AEAD" zeroNonceSizeError) :=
  ⟨(recoverKeys_failure_kind Reference.env ⟨[[1]]⟩ _ []
      (Reference.unmarshalKeyData_marshalKeyData ⟨0, ⟨5, [], [1]⟩, List.replicate 28 0⟩)).1
      (by decide),
    (recoverKeys_failure_kind Reference.env ⟨[[1]]⟩ _ []
      (Reference.unmarshalKeyData_marshalKeyData ⟨0, ⟨5, [], [1]⟩, List.replicate 16 0⟩)).2 (by rfl)
      _ [1] rfl (by decide)⟩

/-- A handle whose nonce is only the salt: GCM gets an empty nonce, and the call fails with the
plain error "cannot create AEAD", not an `InvalidData` `PlatformHandlerError`. -/
theorem recoverKeys_saltOnlyNonce_reference :
    recoverKeys Reference.env ⟨[[1]]⟩
        ⟨0, Reference.marshalKeyData ⟨0, ⟨5, [], [1]⟩, List.replicate 16 0⟩, 5, 0⟩ [] =
      .err (.wrap "cannot create AEAD" zeroNonceSizeError) := by
  decide

/-! ## Adding platform keys -/

theorem recoverKeys_addPlatformKeys (env : Env) (s : State) (data : PlatformKeyData)
    (encryptedPayload : Bytes) (keys : List Bytes)
    (h : recoverKeys env s data encryptedPayload ≠
      .err (.platformHandler .invalidData
        (.wrap "cannot select platform key" (.new "no key available")))) :
    recoverKeys env (addPlatformKeys keys s) data encryptedPayload =
      recoverKeys env s data encryptedPayload := by
  rcases hkd : env.unmarshalKeyData data.encodedHandle with e | kd
  · simp [recoverKeys, hkd]
  by_cases hlt : kd.nonce.length < env.symKeySaltSize
  · simp [recoverKeys, hkd, hlt]
  rcases haad : env.marshalAAD ⟨kd.version, data.generation, data.kdfAlg, data.authMode⟩ with
    e | aadBytes
  · simp [recoverKeys, hkd, hlt, haad]
  rcases selectKey_append env s.platformKeys keys kd.platformKeyID with heq | hno
  · simp [recoverKeys, hkd, hlt, haad, getPlatformKey_eq, addPlatformKeys, heq]
  · exact absurd (by simp [recoverKeys, hkd, hlt, haad, getPlatformKey_eq, hno]) h

theorem recoverKeys_run_adds (env : Env) (s : State) (data : PlatformKeyData)
    (encryptedPayload : Bytes) (adds : List (List Bytes))
    (h : recoverKeys env s data encryptedPayload ≠
      .err (.platformHandler .invalidData
        (.wrap "cannot select platform key" (.new "no key available")))) :
    recoverKeys env (run (adds.map .add) s) data encryptedPayload =
      recoverKeys env s data encryptedPayload := by
  induction adds using List.reverseRecOn with
  | nil => rfl
  | append_singleton adds keys ih =>
    rw [List.map_append, List.map_singleton, run_append_singleton, Op.apply,
      recoverKeys_addPlatformKeys _ _ _ _ _ (ih ▸ h), ih]

theorem recoverKeys_run_adds_reference :
    recoverKeys Reference.env ⟨[[2], [1]]⟩
        ⟨1, Reference.marshalKeyData ⟨1, ⟨5, [9], [1, 9]⟩, List.replicate 17 7⟩, 5, 0⟩ [] ≠
      .err (.platformHandler .invalidData
        (.wrap "cannot select platform key" (.new "no key available"))) ∧
    recoverKeys Reference.env (run ([[[3]], [[1]]].map .add) ⟨[[2], [1]]⟩)
        ⟨1, Reference.marshalKeyData ⟨1, ⟨5, [9], [1, 9]⟩, List.replicate 17 7⟩, 5, 0⟩ [] =
      recoverKeys Reference.env ⟨[[2], [1]]⟩
        ⟨1, Reference.marshalKeyData ⟨1, ⟨5, [9], [1, 9]⟩, List.replicate 17 7⟩, 5, 0⟩ [] :=
  have h : recoverKeys Reference.env ⟨[[2], [1]]⟩
        ⟨1, Reference.marshalKeyData ⟨1, ⟨5, [9], [1, 9]⟩, List.replicate 17 7⟩, 5, 0⟩ [] ≠
      .err (.platformHandler .invalidData
        (.wrap "cannot select platform key" (.new "no key available"))) := by
    decide
  ⟨h, recoverKeys_run_adds Reference.env ⟨[[2], [1]]⟩ _ [] [[[3]], [[1]]] h⟩

end Plainkey
