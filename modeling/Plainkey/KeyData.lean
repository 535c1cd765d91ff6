import Plainkey.Go

/-!
# Plainkey.KeyData

The records `RecoverKeys` reads and builds, and `Env`: what `platform.go` calls outside itself.

`keyData`, `platformKeyId`, `additionalData`, `deriveAESKey`, `symKeySaltSize` and the JSON and
ASN.1 code for these records live in files of the `plainkey` package that are not part of this
model; `hmac`, `json`, `cryptobyte` and GCM are Go libraries. `Env` takes all of them as
parameters. The only law it carries is the one the spec fixes for `deriveAESKey`: the key it
derives is a 32-byte AES-256 key. Laws of the other primitives (GCM `Open` inverts `Seal`, JSON
decoding inverts encoding) are hypotheses of the theorems that need them.
-/

namespace Plainkey

abbrev HashAlg := Nat

abbrev AuthMode := UInt8

structure PlatformKeyId where
  alg : HashAlg
  salt : Bytes
  digest : Bytes
deriving DecidableEq, Repr

structure KeyData where
  version : Int
  platformKeyID : PlatformKeyId
  nonce : Bytes
deriving DecidableEq, Repr

structure AdditionalData where
  version : Int
  generation : Int
  kdfAlg : HashAlg
  authMode : AuthMode
deriving DecidableEq, Repr

structure PlatformKeyData where
  generation : Int
  encodedHandle : Bytes
  kdfAlg : HashAlg
  authMode : AuthMode
deriving DecidableEq, Repr

/-- The code `platform.go` calls that is not in it: `symKeySaltSize`, the bytes of a nonce that
are the salt; `hashAlg.Available`; the HMAC that `hmac.New(alg.New, key)` computes; `deriveAESKey`
(spec §4.2), modelled from the spec as a 32-byte key; `json.Unmarshal` of a handle into a
`keyData`; `MarshalASN1` of an `additionalData` into a `cryptobyte.Builder`; and GCM decryption
under `key`, `nonce` and `aad`, the body of `Open` past its nonce length check. -/
structure Env where
  symKeySaltSize : Nat
  available : HashAlg → Bool
  hmac : HashAlg → Bytes → Bytes → Bytes
  deriveAESKey : Bytes → Bytes → Bytes
  deriveAESKey_length : ∀ key salt, (deriveAESKey key salt).length = 32
  unmarshalKeyData : Bytes → Except Error KeyData
  marshalAAD : AdditionalData → Except Error Bytes
  gcmOpen : (key nonce ciphertext aad : Bytes) → Except Error Bytes

attribute [simp] Env.deriveAESKey_length

namespace Env

variable (env : Env)

/-- The HMAC of `msg` under `key`: `hmac.New(alg.New, key)` calls `alg.New()`, which panics for a
hash that is not linked in. -/
def hmacSum (alg : HashAlg) (key msg : Bytes) : Go Bytes :=
  if env.available alg then .ok (env.hmac alg key msg)
  else .panic ("crypto: requested hash function #" ++ toString alg ++ " is unavailable")

def Matches (id : PlatformKeyId) (key : Bytes) : Prop := env.hmac id.alg key id.salt = id.digest

instance (id : PlatformKeyId) : DecidablePred (env.Matches id) :=
  fun key => inferInstanceAs (Decidable (env.hmac id.alg key id.salt = id.digest))

theorem hmacSum_of_available {alg : HashAlg} (h : env.available alg = true) (key msg : Bytes) :
    env.hmacSum alg key msg = .ok (env.hmac alg key msg) := if_pos h

end Env

/-- `aead.Open(nil, nonce, ciphertext, aad)`: GCM panics on a nonce of the wrong length. -/
def AEAD.open (env : Env) (a : AEAD) (nonce ciphertext aad : Bytes) : Go Bytes :=
  if nonce.length = a.nonceSize then .ofExcept (env.gcmOpen a.block.key nonce ciphertext aad)
  else .panic "crypto/cipher: incorrect nonce length given to GCM"

end Plainkey
