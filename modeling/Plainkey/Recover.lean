import Plainkey.Store

/-!
# Plainkey.Recover

`platformKeyDataHandler`, and what its `RecoverKeys` is for.

`recoverKeys` follows the Go code step by step, with the library objects it builds (`Block`,
`AEAD`) and every slice and call that can panic. `recoverSpec` is recovery as spec §4.7 gives it,
without that plumbing: parse the handle, check the nonce, serialise the AAD, select the key
(`selectKey`), and open the payload under the key derived from the nonce salt, every failure
reported as invalid data.

* `recoverKeys_eq`: whenever the handle's nonce is not exactly `symKeySaltSize` bytes long, the
  code computes `recoverSpec`. No slice is out of range, the derived key is one AES takes, and
  the GCM nonce size is positive and is the length of the nonce `Open` gets.
* `recoverKeys_of_saltOnlyNonce`: a nonce of exactly `symKeySaltSize` bytes leaves GCM an empty
  nonce, which `NewGCMWithNonceSize` rejects. Once the AAD is serialised and a key selected, the
  call fails with the plain error "cannot create AEAD".
* `recoverKeys_ne_panic`: `RecoverKeys` never panics.
-/

namespace Plainkey

def platformName : String := "plainkey"

/-- `platformKeyDataHandler.RecoverKeys`, on the package state `s`. -/
def recoverKeys (env : Env) (s : State) (data : PlatformKeyData) (encryptedPayload : Bytes) :
    Go Bytes := do
  let kd ← (Go.ofExcept (env.unmarshalKeyData data.encodedHandle)).mapErr
    (.platformHandler .invalidData)
  if kd.nonce.length < env.symKeySaltSize then
    throw (.platformHandler .invalidData (.new "invalid nonce size"))
  let aad : AdditionalData :=
    { version := kd.version, generation := data.generation, kdfAlg := data.kdfAlg,
      authMode := data.authMode }
  let aadBytes ← (Go.ofExcept (env.marshalAAD aad)).mapErr
    fun err => .platformHandler .invalidData (.wrap "cannot serialize AAD" err)
  let key ← (getPlatformKey env s kd.platformKeyID).mapErr
    fun err => .platformHandler .invalidData (.wrap "cannot select platform key" err)
  let salt ← sliceTo kd.nonce env.symKeySaltSize
  let b ← (Go.ofExcept (aesNewCipher (env.deriveAESKey key salt))).mapErr
    (.wrap "cannot create cipher")
  let nonce ← sliceFrom kd.nonce env.symKeySaltSize
  let aead ← (Go.ofExcept (newGCMWithNonceSize b nonce.length)).mapErr
    (.wrap "cannot create AEAD")
  (aead.open env nonce encryptedPayload aadBytes).mapErr
    fun err => .platformHandler .invalidData (.wrap "cannot open payload" err)

def recoverKeysWithAuthKey (_data : PlatformKeyData) (_encryptedPayload _key : Bytes) :
    Go Bytes :=
  .err (.new "unsupported action")

def changeAuthKey (_data : PlatformKeyData) (_old _new : Bytes) : Go Bytes :=
  .err (.new "unsupported action")

/-- Recovery as spec §4.7 describes it. -/
def recoverSpec (env : Env) (keys : List Bytes) (data : PlatformKeyData)
    (encryptedPayload : Bytes) : Except Error Bytes := do
  let kd ← (env.unmarshalKeyData data.encodedHandle).mapError (.platformHandler .invalidData)
  if kd.nonce.length < env.symKeySaltSize then
    throw (.platformHandler .invalidData (.new "invalid nonce size"))
  let aadBytes ←
    (env.marshalAAD ⟨kd.version, data.generation, data.kdfAlg, data.authMode⟩).mapError fun err =>
      .platformHandler .invalidData (.wrap "cannot serialize AAD" err)
  let key ← (selectKey env keys kd.platformKeyID).mapError
    fun err => .platformHandler .invalidData (.wrap "cannot select platform key" err)
  (env.gcmOpen (env.deriveAESKey key (kd.nonce.take env.symKeySaltSize))
      (kd.nonce.drop env.symKeySaltSize) encryptedPayload aadBytes).mapError
    fun err => .platformHandler .invalidData (.wrap "cannot open payload" err)

theorem recoverSpec_ok_or_invalidData (env : Env) (keys : List Bytes) (data : PlatformKeyData)
    (encryptedPayload : Bytes) :
    (∃ p, recoverSpec env keys data encryptedPayload = .ok p) ∨
      ∃ cause, recoverSpec env keys data encryptedPayload =
        .error (.platformHandler .invalidData cause) := by
  simp only [recoverSpec]
  rcases env.unmarshalKeyData data.encodedHandle with e | kd
  · simp
  by_cases hlt : kd.nonce.length < env.symKeySaltSize
  · simp [hlt]
  simp only [hlt, except_mapError_ok, except_ok_bind, if_false, except_pure_eq]
  rcases env.marshalAAD ⟨kd.version, data.generation, data.kdfAlg, data.authMode⟩ with
    e | aadBytes <;> rcases selectKey env keys kd.platformKeyID with e' | key <;> simp
  rcases env.gcmOpen (env.deriveAESKey key (kd.nonce.take env.symKeySaltSize))
    (kd.nonce.drop env.symKeySaltSize) encryptedPayload aadBytes with e | p <;> simp

theorem recoverSpec_eq_ok {env : Env} {keys : List Bytes} {data : PlatformKeyData}
    {encryptedPayload p : Bytes} :
    recoverSpec env keys data encryptedPayload = .ok p ↔
      ∃ kd aadBytes key, env.unmarshalKeyData data.encodedHandle = .ok kd ∧
        env.symKeySaltSize ≤ kd.nonce.length ∧
        env.marshalAAD ⟨kd.version, data.generation, data.kdfAlg, data.authMode⟩ = .ok aadBytes ∧
        selectKey env keys kd.platformKeyID = .ok key ∧
        env.gcmOpen (env.deriveAESKey key (kd.nonce.take env.symKeySaltSize))
          (kd.nonce.drop env.symKeySaltSize) encryptedPayload aadBytes = .ok p := by
  rcases hkd : env.unmarshalKeyData data.encodedHandle with e | kd
  · simp [recoverSpec, hkd]
  by_cases hlt : kd.nonce.length < env.symKeySaltSize
  · simp [recoverSpec, hkd, hlt]
  · simp [recoverSpec, hkd, hlt, not_lt.1 hlt, except_bind_eq_ok, except_mapError_eq_ok]

theorem recoverKeys_eq (env : Env) (s : State) (data : PlatformKeyData) (encryptedPayload : Bytes)
    (h : ∀ kd, env.unmarshalKeyData data.encodedHandle = .ok kd →
      kd.nonce.length ≠ env.symKeySaltSize) :
    recoverKeys env s data encryptedPayload =
      .ofExcept (recoverSpec env s.platformKeys data encryptedPayload) := by
  rcases hkd : env.unmarshalKeyData data.encodedHandle with e | kd
  · simp [recoverKeys, recoverSpec, hkd]
  by_cases hlt : kd.nonce.length < env.symKeySaltSize
  · simp [recoverKeys, recoverSpec, hkd, hlt]
  have hS : env.symKeySaltSize ≤ kd.nonce.length := not_lt.1 hlt
  have hpos : 0 < kd.nonce.length - env.symKeySaltSize := by have := h kd hkd; omega
  simp only [recoverKeys, recoverSpec, hkd, hlt, getPlatformKey_eq, Go.ofExcept_ok, Go.mapErr_ok,
    except_mapError_ok, except_ok_bind, Go.ok_bind, if_false, Go.pure_eq, except_pure_eq]
  rcases env.marshalAAD ⟨kd.version, data.generation, data.kdfAlg, data.authMode⟩ with
    e | aadBytes <;> rcases selectKey env s.platformKeys kd.platformKeyID with e' | key <;>
    simp [sliceTo_of_le hS, sliceFrom_of_le hS, aesNewCipher_of_length,
      newGCMWithNonceSize_of_pos _ hpos, AEAD.open, Go.ofExcept_mapError]

/-- A nonce of exactly `symKeySaltSize` bytes: after the AAD and the key, GCM gets an empty nonce
and `NewGCMWithNonceSize` refuses it. -/
theorem recoverKeys_of_saltOnlyNonce (env : Env) (s : State) (data : PlatformKeyData)
    (encryptedPayload : Bytes) {kd : KeyData}
    (hkd : env.unmarshalKeyData data.encodedHandle = .ok kd)
    (hn : kd.nonce.length = env.symKeySaltSize) :
    recoverKeys env s data encryptedPayload = .ofExcept (do
      let _ ← (env.marshalAAD ⟨kd.version, data.generation, data.kdfAlg, data.authMode⟩).mapError
        fun err => .platformHandler .invalidData (.wrap "cannot serialize AAD" err)
      let _ ← (selectKey env s.platformKeys kd.platformKeyID).mapError
        fun err => .platformHandler .invalidData (.wrap "cannot select platform key" err)
      throw (.wrap "cannot create AEAD" zeroNonceSizeError)) := by
  simp only [recoverKeys, hkd, hn, getPlatformKey_eq, Go.ofExcept_ok, Go.mapErr_ok, Go.ok_bind,
    lt_irrefl, if_false, Go.pure_eq]
  rcases env.marshalAAD ⟨kd.version, data.generation, data.kdfAlg, data.authMode⟩ with
    e | aadBytes <;> rcases selectKey env s.platformKeys kd.platformKeyID with e' | key <;>
    simp [sliceTo_of_le hn.ge, sliceFrom_of_le hn.ge, aesNewCipher_of_length, hn]

theorem recoverKeys_ne_panic (env : Env) (s : State) (data : PlatformKeyData)
    (encryptedPayload : Bytes) (msg : String) :
    recoverKeys env s data encryptedPayload ≠ .panic msg := by
  by_cases h : ∀ kd, env.unmarshalKeyData data.encodedHandle = .ok kd →
      kd.nonce.length ≠ env.symKeySaltSize
  · rw [recoverKeys_eq env s data encryptedPayload h]
    exact Go.ofExcept_ne_panic _ _
  · push_neg at h
    obtain ⟨kd, hkd, hn⟩ := h
    rw [recoverKeys_of_saltOnlyNonce env s data encryptedPayload hkd hn]
    exact Go.ofExcept_ne_panic _ _

/-- Every error of `RecoverKeys` is an `InvalidData` `PlatformHandlerError`, except "cannot create
AEAD", which comes only from a handle whose nonce is exactly `symKeySaltSize` bytes long. The
"cannot create cipher" branch is never taken: `deriveAESKey` always gives `aes.NewCipher` a
32-byte key. -/
theorem recoverKeys_err (env : Env) (s : State) (data : PlatformKeyData) (encryptedPayload : Bytes)
    (e : Error) (h : recoverKeys env s data encryptedPayload = .err e) :
    (∃ cause, e = .platformHandler .invalidData cause) ∨
      e = .wrap "cannot create AEAD" zeroNonceSizeError ∧
        ∃ kd, env.unmarshalKeyData data.encodedHandle = .ok kd ∧
          kd.nonce.length = env.symKeySaltSize := by
  by_cases hn : ∀ kd, env.unmarshalKeyData data.encodedHandle = .ok kd →
      kd.nonce.length ≠ env.symKeySaltSize
  · rw [recoverKeys_eq env s data encryptedPayload hn] at h
    rcases recoverSpec_ok_or_invalidData env s.platformKeys data encryptedPayload with
      ⟨p, hp⟩ | ⟨cause, hc⟩
    · simp [hp] at h
    · simp only [hc, Go.ofExcept_error, Go.err.injEq] at h
      exact .inl ⟨cause, h.symm⟩
  · push_neg at hn
    obtain ⟨kd, hkd, hlen⟩ := hn
    rw [recoverKeys_of_saltOnlyNonce env s data encryptedPayload hkd hlen] at h
    revert h
    rcases env.marshalAAD ⟨kd.version, data.generation, data.kdfAlg, data.authMode⟩ with
      e₁ | aadBytes <;> rcases selectKey env s.platformKeys kd.platformKeyID with e₂ | key <;>
      simp only [except_mapError_error, except_mapError_ok, except_error_bind, except_ok_bind,
        except_throw_eq, Go.ofExcept_error, Go.err.injEq] <;> rintro rfl <;> simp [hkd, hlen]

theorem recoverKeys_err_saltOnly :
    recoverKeys Reference.env ⟨[[1]]⟩
        ⟨0, Reference.marshalKeyData ⟨0, ⟨5, [], [1]⟩, List.replicate 16 0⟩, 5, 0⟩ [] =
      .err (.wrap "cannot create AEAD" zeroNonceSizeError) ∧
    ((∃ cause, Error.wrap "cannot create AEAD" zeroNonceSizeError =
        .platformHandler .invalidData cause) ∨
      Error.wrap "cannot create AEAD" zeroNonceSizeError =
          .wrap "cannot create AEAD" zeroNonceSizeError ∧
        ∃ kd, Reference.env.unmarshalKeyData
            (Reference.marshalKeyData ⟨0, ⟨5, [], [1]⟩, List.replicate 16 0⟩) = .ok kd ∧
          kd.nonce.length = Reference.env.symKeySaltSize) :=
  have h : recoverKeys Reference.env ⟨[[1]]⟩
      ⟨0, Reference.marshalKeyData ⟨0, ⟨5, [], [1]⟩, List.replicate 16 0⟩, 5, 0⟩ [] =
        .err (.wrap "cannot create AEAD" zeroNonceSizeError) := by
    decide
  ⟨h, recoverKeys_err Reference.env ⟨[[1]]⟩ _ [] _ h⟩

end Plainkey
