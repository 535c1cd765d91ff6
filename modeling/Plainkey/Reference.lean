import Plainkey.KeyData

/-!
# Plainkey.Reference

A reference instance of `Env` and of the sealing side, with no secrecy at all. It satisfies every
law the round trip assumes (`open_seal`, `unmarshalKeyData_marshalKeyData`, and the key length
that `Env` itself demands), so those hypotheses can all hold at once, and it gives concrete
inputs on which the model runs.

* The handle codec escapes each byte of a string with a `1` and ends it with a `0`; a number is
  the string of that many zero bytes, an integer the difference of two numbers.
* `gcmSeal` puts the key, the nonce and the AAD in front of the plaintext, and `gcmOpen` checks
  them.
-/

namespace Plainkey
namespace Reference

def encodeBytes : Bytes → Bytes
  | [] => [0]
  | b :: bs => 1 :: b :: encodeBytes bs

def decodeBytes : Bytes → Option (Bytes × Bytes)
  | t :: rest =>
    if t = 0 then some ([], rest)
    else match rest with
      | b :: rest => (decodeBytes rest).map fun r => (b :: r.1, r.2)
      | [] => none
  | [] => none

theorem decodeBytes_encodeBytes (bs rest : Bytes) :
    decodeBytes (encodeBytes bs ++ rest) = some (bs, rest) := by
  induction bs with
  | nil => cases rest <;> simp [encodeBytes, decodeBytes]
  | cons b bs ih => simp [encodeBytes, decodeBytes, ih]

def encodeNat (n : Nat) : Bytes := encodeBytes (List.replicate n 0)

def decodeNat (b : Bytes) : Option (Nat × Bytes) := (decodeBytes b).map fun r => (r.1.length, r.2)

theorem decodeNat_encodeNat (n : Nat) (rest : Bytes) :
    decodeNat (encodeNat n ++ rest) = some (n, rest) := by
  simp [decodeNat, encodeNat, decodeBytes_encodeBytes]

def encodeInt (v : Int) : Bytes := encodeNat v.toNat ++ encodeNat (-v).toNat

def decodeInt (b : Bytes) : Option (Int × Bytes) := do
  let (p, b) ← decodeNat b
  let (n, b) ← decodeNat b
  pure ((p : Int) - n, b)

theorem decodeInt_encodeInt (v : Int) (rest : Bytes) :
    decodeInt (encodeInt v ++ rest) = some (v, rest) := by
  have h : (v.toNat : Int) - ((-v).toNat : Int) = v := by omega
  simp only [decodeInt, encodeInt, List.append_assoc, decodeNat_encodeNat, Option.bind_eq_bind,
    Option.some_bind, Option.pure_def, h]

def marshalKeyData (kd : KeyData) : Bytes :=
  encodeInt kd.version ++ encodeNat kd.platformKeyID.alg ++ encodeBytes kd.platformKeyID.salt ++
    encodeBytes kd.platformKeyID.digest ++ encodeBytes kd.nonce

def decodeKeyData (b : Bytes) : Option KeyData := do
  let (version, b) ← decodeInt b
  let (alg, b) ← decodeNat b
  let (salt, b) ← decodeBytes b
  let (digest, b) ← decodeBytes b
  let (nonce, _) ← decodeBytes b
  pure ⟨version, ⟨alg, salt, digest⟩, nonce⟩

theorem decodeKeyData_marshalKeyData (kd : KeyData) :
    decodeKeyData (marshalKeyData kd) = some kd := by
  have h := decodeBytes_encodeBytes kd.nonce []
  rw [List.append_nil] at h
  simp [decodeKeyData, marshalKeyData, decodeInt_encodeInt, decodeNat_encodeNat,
    decodeBytes_encodeBytes, h]

/-- The reference sealing: key, nonce and AAD in front of the plaintext. -/
def gcmSeal (key nonce plaintext aad : Bytes) : Bytes := key ++ nonce ++ aad ++ plaintext

def env : Env where
  symKeySaltSize := 16
  available alg := decide (alg = 5)
  hmac _ key msg := key ++ msg
  deriveAESKey key salt := (key ++ salt ++ List.replicate 32 0).take 32
  deriveAESKey_length key salt := by
    simp only [List.length_take, List.length_append, List.length_replicate]; omega
  unmarshalKeyData b := match decodeKeyData b with
    | some kd => .ok kd
    | none => .error (.new "invalid character in handle")
  marshalAAD aad := .ok (encodeInt aad.version ++ encodeInt aad.generation ++
    encodeNat aad.kdfAlg ++ [aad.authMode])
  gcmOpen key nonce ciphertext aad :=
    if ciphertext.take (key ++ nonce ++ aad).length = key ++ nonce ++ aad then
      .ok (ciphertext.drop (key ++ nonce ++ aad).length)
    else .error (.new "cipher: message authentication failed")

theorem open_seal (key nonce plaintext aad : Bytes) :
    env.gcmOpen key nonce (gcmSeal key nonce plaintext aad) aad = .ok plaintext := by
  simp only [env, gcmSeal, List.take_left, List.drop_left, ite_true]

theorem unmarshalKeyData_marshalKeyData (kd : KeyData) :
    env.unmarshalKeyData (marshalKeyData kd) = .ok kd := by
  simp [env, decodeKeyData_marshalKeyData]

end Reference
end Plainkey
