import Zanskar.Go.Strconv
import Zanskar.Lib.Aead

/-!
# Envelope encryption (`internal/crypto/envelope.go`)

AES-256-GCM is an ideal AEAD here (`Lib.Aead`). What the package adds is modelled as
it is: the key's size, the bound on a plaintext, the nonce drawn for every sealing
and kept in front of the ciphertext, and the least length of what is opened. The
bytes of the random source are arguments; `none` is a source that fails.
-/

namespace Zanskar

open Go

def keySize : Nat := 32

def nonceSize : Nat := 12

/-- `MaxPlaintext`. -/
def maxPlaintext : Nat := 16 * 2 ^ 20

/-- A key: a master key or a data key. -/
abbrev Key := { b : Bytes // b.length = keySize }

abbrev Nonce := { b : Bytes // b.length = nonceSize }

/-- Why the package refuses. -/
inductive CryptoError where
  | keyLength (got : Nat)
  | nonce
  | plaintextTooLarge
  | invalidCiphertext
  deriving DecidableEq

/-- The text of an error. -/
def CryptoError.text : CryptoError → String
  | .keyLength got => "crypto: key must be 32 bytes, got " ++ toString got
  | .nonce => "crypto: nonce"
  | .plaintextTooLarge => "crypto: plaintext exceeds MaxPlaintext"
  | .invalidCiphertext => "crypto: invalid ciphertext"

namespace Crypto

/-- `newAEAD`. -/
def newAEAD (key : Bytes) : Except CryptoError Key :=
  if h : key.length = keySize then .ok ⟨key, h⟩ else .error (.keyLength key.length)

variable (aead : Lib.Aead)

/-- `seal`: the nonce, and the ciphertext under it. -/
def sealWith (key : Key) (rand : Option Nonce) (plaintext aad : Bytes) : Except CryptoError Bytes :=
  if maxPlaintext < plaintext.length then .error .plaintextTooLarge
  else
    match rand with
    | none => .error .nonce
    | some nonce => .ok (nonce.1 ++ aead.encrypt key.1 nonce.1 plaintext aad)

/-- `open`. -/
def openWith (key : Key) (blob aad : Bytes) : Except CryptoError Bytes :=
  if blob.length < nonceSize + aead.overhead then .error .invalidCiphertext
  else
    match aead.decrypt key.1 (blob.take nonceSize) (blob.drop nonceSize) aad with
    | none => .error .invalidCiphertext
    | some plaintext => .ok plaintext

/-- `Encrypt`. -/
def encrypt (dek : Bytes) (rand : Option Nonce) (plaintext aad : Bytes) :
    Except CryptoError Bytes :=
  match newAEAD dek with
  | .error e => .error e
  | .ok key => sealWith aead key rand plaintext aad

/-- `Decrypt`. -/
def decrypt (dek ciphertext aad : Bytes) : Except CryptoError Bytes :=
  match newAEAD dek with
  | .error e => .error e
  | .ok key => openWith aead key ciphertext aad

/-- `Zero`. -/
def zero (b : Bytes) : Bytes := List.replicate b.length 0

variable {aead}

variable {rand : Option Nonce} {aad blob plaintext : Bytes} {key : Key} {aad' dek : Bytes}

theorem sealWith_ok (h : sealWith aead key rand plaintext aad = .ok blob) :
    ∃ nonce : Nonce, blob = nonce.1 ++ aead.encrypt key.1 nonce.1 plaintext aad := by
  unfold sealWith at h
  split at h
  · cases h
  split at h
  · cases h
  · rename_i nonce
    exact ⟨nonce, (Except.ok.inj h).symm⟩

/-- What is opened under any key and associated data is decided by the scheme. -/
theorem openWith_nonce (key' : Key) (nonce : Nonce) :
    openWith aead key' (nonce.1 ++ aead.encrypt key.1 nonce.1 plaintext aad) aad' =
      match aead.decrypt key'.1 nonce.1 (aead.encrypt key.1 nonce.1 plaintext aad) aad' with
      | none => .error .invalidCiphertext
      | some plaintext => .ok plaintext := by
  have hlen := nonce.2
  have hover := aead.overhead_le key.1 nonce.1 plaintext aad
  unfold openWith
  rw [if_neg (by rw [List.length_append]; omega), List.take_left' hlen, List.drop_left' hlen]

theorem openWith_sealWith (h : sealWith aead key rand plaintext aad = .ok blob) :
    openWith aead key blob aad = .ok plaintext := by
  obtain ⟨nonce, rfl⟩ := sealWith_ok h
  rw [openWith_nonce, aead.decrypt_encrypt]

/-- Another key or other associated data does not open it. -/
theorem openWith_sealWith_other {key' : Key} (h : sealWith aead key rand plaintext aad = .ok blob)
    (hne : key' ≠ key ∨ aad' ≠ aad) : openWith aead key' blob aad' = .error .invalidCiphertext := by
  obtain ⟨nonce, rfl⟩ := sealWith_ok h
  have hother : key'.1 ≠ key.1 ∨ nonce.1 ≠ nonce.1 ∨ aad' ≠ aad := by
    rcases hne with hkey | haad
    · exact .inl fun heq => hkey (Subtype.ext heq)
    · exact .inr (.inr haad)
  rw [openWith_nonce, aead.decrypt_other _ _ _ _ _ _ _ hother]

theorem decrypt_encrypt (h : encrypt aead dek rand plaintext aad = .ok blob) :
    decrypt aead dek blob aad = .ok plaintext := by
  unfold encrypt at h
  unfold decrypt
  split at h
  · cases h
  · exact openWith_sealWith h

theorem decrypt_encrypt_other (h : encrypt aead dek rand plaintext aad = .ok blob)
    (hne : aad' ≠ aad) : decrypt aead dek blob aad' = .error .invalidCiphertext := by
  unfold encrypt at h
  unfold decrypt
  split at h
  · cases h
  · exact openWith_sealWith_other h (.inr hne)

end Crypto

end Zanskar
