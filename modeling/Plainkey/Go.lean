import Mathlib.Data.List.Basic

/-!
# Plainkey.Go

The part of Go that `plainkey/platform.go` leans on, as values.

A Go call returns a value, returns an error, or panics: `Go α`. Errors keep the structure that
`errors.Unwrap` sees (`errors.New`, `fmt.Errorf` with `%w`, and the host's
`PlatformHandlerError`), so that a statement can say which step failed and how the failure was
classified. The library calls whose failure modes decide an outcome of `RecoverKeys` are
modelled with those failure modes:

* `sliceTo`, `sliceFrom`: `s[:high]` and `s[low:]`, which panic out of range.
* `aesNewCipher`: `aes.NewCipher`, which takes 16, 24 and 32 byte keys only.
* `newGCMWithNonceSize`: `cipher.NewGCMWithNonceSize`, which rejects a nonce size of zero.

`Block` and `AEAD` carry the checks their constructors made, so a value of either type is one the
library could have returned.
-/

namespace Plainkey

abbrev Bytes := List UInt8

inductive PlatformHandlerErrorType where
  | invalidData
deriving DecidableEq, Repr

/-- A Go `error`, with the wrapping that `errors.Unwrap` sees: `errors.New(msg)` or an error a
library returns, `fmt.Errorf("msg: %w", err)`, and `&secboot.PlatformHandlerError{...}`. -/
inductive Error where
  | new (msg : String)
  | wrap (msg : String) (err : Error)
  | platformHandler (type : PlatformHandlerErrorType) (err : Error)
deriving DecidableEq, Repr

inductive Go (α : Type) where
  | ok (a : α)
  | err (e : Error)
  | panic (msg : String)
deriving DecidableEq, Repr

namespace Go

variable {α β : Type}

def bind : Go α → (α → Go β) → Go β
  | ok a, f => f a
  | err e, _ => err e
  | panic m, _ => panic m

instance : Monad Go where
  pure := ok
  bind := bind

instance : MonadExceptOf Error Go where
  throw := err
  tryCatch x h := match x with
    | err e => h e
    | x => x

/-- `if err != nil { return nil, f(err) }`: a returned error is rewrapped, a panic goes on. -/
def mapErr (f : Error → Error) : Go α → Go α
  | err e => err (f e)
  | x => x

def ofExcept : Except Error α → Go α
  | .ok a => ok a
  | .error e => err e

@[simp] theorem pure_eq (a : α) : (pure a : Go α) = ok a := rfl
@[simp] theorem throw_eq (e : Error) : (throw e : Go α) = err e := rfl
@[simp] theorem ok_bind (a : α) (f : α → Go β) : (ok a >>= f) = f a := rfl
@[simp] theorem err_bind (e : Error) (f : α → Go β) : (err e >>= f) = err e := rfl
@[simp] theorem panic_bind (m : String) (f : α → Go β) : (panic m >>= f) = panic m := rfl

@[simp] theorem mapErr_ok (f : Error → Error) (a : α) : (ok a).mapErr f = ok a := rfl
@[simp] theorem mapErr_err (f : Error → Error) (e : Error) : (err e : Go α).mapErr f = err (f e) :=
  rfl
@[simp] theorem mapErr_panic (f : Error → Error) (m : String) :
    (panic m : Go α).mapErr f = panic m :=
  rfl

@[simp] theorem ofExcept_ok (a : α) : ofExcept (.ok a : Except Error α) = ok a := rfl
@[simp] theorem ofExcept_error (e : Error) : ofExcept (.error e : Except Error α) = err e := rfl

theorem ofExcept_ne_panic (x : Except Error α) (m : String) : ofExcept x ≠ panic m := by
  cases x <;> simp

theorem ofExcept_inj {x y : Except Error α} : ofExcept x = ofExcept y ↔ x = y := by
  cases x <;> cases y <;> simp [ofExcept]

theorem ofExcept_mapError (x : Except Error α) (f : Error → Error) :
    ofExcept (x.mapError f) = (ofExcept x).mapErr f := by
  cases x <;> rfl

end Go

/-! ## `Except`, for library calls that never panic -/

section Except

variable {ε ε' α β : Type}

@[simp] theorem except_pure_eq (a : α) : (pure a : Except ε α) = .ok a := rfl
@[simp] theorem except_throw_eq (e : ε) : (throw e : Except ε α) = .error e := rfl
@[simp] theorem except_ok_bind (a : α) (f : α → Except ε β) : (Except.ok a >>= f) = f a := rfl
@[simp] theorem except_error_bind (e : ε) (f : α → Except ε β) :
    (Except.error e >>= f) = Except.error e := rfl
@[simp] theorem except_mapError_ok (f : ε → ε') (a : α) :
    (Except.ok a : Except ε α).mapError f = .ok a := rfl
@[simp] theorem except_mapError_error (f : ε → ε') (e : ε) :
    (Except.error e : Except ε α).mapError f = .error (f e) := rfl

theorem except_bind_eq_ok {x : Except ε α} {f : α → Except ε β} {b : β} :
    (x >>= f) = .ok b ↔ ∃ a, x = .ok a ∧ f a = .ok b := by
  cases x <;> simp

theorem except_mapError_eq_ok {x : Except ε α} {f : ε → ε'} {a : α} :
    x.mapError f = .ok a ↔ x = .ok a := by
  cases x <;> simp

end Except

/-! ## Slices -/

/-- `s[:high]`, and `s[low:]` below. Go checks `high` against the capacity; the model checks it
against the length, which is what `RecoverKeys` makes sure of before it slices. -/
def sliceTo (s : Bytes) (high : Nat) : Go Bytes :=
  if high ≤ s.length then .ok (s.take high) else .panic "runtime error: slice bounds out of range"

def sliceFrom (s : Bytes) (low : Nat) : Go Bytes :=
  if low ≤ s.length then .ok (s.drop low) else .panic "runtime error: slice bounds out of range"

theorem sliceTo_of_le {s : Bytes} {high : Nat} (h : high ≤ s.length) :
    sliceTo s high = .ok (s.take high) := if_pos h

theorem sliceFrom_of_le {s : Bytes} {low : Nat} (h : low ≤ s.length) :
    sliceFrom s low = .ok (s.drop low) := if_pos h

/-! ## AES and GCM -/

structure Block where
  key : Bytes
  key_size : key.length = 16 ∨ key.length = 24 ∨ key.length = 32

def aesNewCipher (key : Bytes) : Except Error Block :=
  if h : key.length = 16 ∨ key.length = 24 ∨ key.length = 32 then .ok ⟨key, h⟩
  else .error (.new ("crypto/aes: invalid key size " ++ toString key.length))

structure AEAD where
  block : Block
  nonceSize : Nat
  nonceSize_pos : 0 < nonceSize

/-- The error `cipher.NewGCMWithNonceSize` returns for a nonce size of zero, in the wording of
Go's `crypto/cipher` up to Go 1.23; later releases word it differently. -/
def zeroNonceSizeError : Error :=
  .new "cipher: the nonce can\x27t have zero length, or the security of the key will be immediately compromised"

/-- `cipher.NewGCMWithNonceSize(b, size)`, with the standard 16-byte tag. -/
def newGCMWithNonceSize (b : Block) (size : Nat) : Except Error AEAD :=
  if h : 0 < size then .ok ⟨b, size, h⟩ else .error zeroNonceSizeError

theorem aesNewCipher_of_length {key : Bytes} (h : key.length = 32) :
    aesNewCipher key = .ok ⟨key, .inr (.inr h)⟩ := dif_pos _

theorem newGCMWithNonceSize_of_pos (b : Block) {size : Nat} (h : 0 < size) :
    newGCMWithNonceSize b size = .ok ⟨b, size, h⟩ := dif_pos h

@[simp] theorem newGCMWithNonceSize_zero (b : Block) :
    newGCMWithNonceSize b 0 = .error zeroNonceSizeError := rfl

end Plainkey
