import Zanskar.Go.Text
import Zanskar.Keyring.Secrets

/-!
# Rotating a certificate authority (`internal/credential/repo.go`)

An authority's row holds the sealed signing key with its public key, and during a rotation a sealed
next key with its own. `PrepareRotation`, `CutOver`, `CancelRotation` and `Retire` read the row,
work on what they read, and end in one `UPDATE` that asks for nothing but the row's id. Each
statement, and each use of the key ring, is a step here, so calls on one row interleave.

- `keys_match` : where `CutOver` finds the next key it unsealed still in the row when it writes, the
  keys in the row are pairs;
- `late_cut_over_mixes_keys` : otherwise it signs with a key that was cancelled, beside the public
  key of another.

The ring is the one of `Keyring.Secrets`: what it sealed is kept beside it, and it opens that.
-/

namespace Zanskar.Vault

open Go Lib List
open Keyring (keyOf drawOf nonceOf)

/-! ## Keys -/

/-- Why `ssh.ParseRawPrivateKey` refuses. -/
inductive ParseError where
  | passphraseMissing
  | other (text : String)

/-- What the vault uses of `golang.org/x/crypto/ssh`. -/
structure Ssh where
  /-- A parsed private key. -/
  Key : Type
  parseRawPrivateKey : (raw : String) → Except ParseError Key
  parseRawPrivateKeyWithPassphrase : (raw passphrase : String) → Except String Key
  /-- `NewSignerFromKey`, and the `authorized_keys` line of the signer's public key. -/
  authorizedKey : Key → Except String String
  /-- `MarshalPrivateKey` without a passphrase, encoded as PEM. -/
  marshalPrivateKey : Key → Except String Bytes

/-- Why a call is refused. -/
inductive VaultError where
  | invalid (why : String)
  | rotationPending
  | noRotation
  | noSecret
  | passphrase
  | badKey (why : String)
  | ring (e : RingError)
  | unseal (e : RingError)
  /-- A statement fails. -/
  | store

/-- `strings.Contains`. -/
def contains (s part : String) : Bool := decide (part.toList <:+: s.toList)

section

variable (ssh : Ssh)

/-- The PEM and the public key of a parsed key. -/
def encodeKey (key : ssh.Key) : Except VaultError (Bytes × String) :=
  match ssh.authorizedKey key with
  | .error why => .error (.badKey why)
  | .ok line =>
    match ssh.marshalPrivateKey key with
    | .error why => .error (.badKey why)
    | .ok pem => .ok (pem, trimSpace line)

/-- `normalisePrivateKey`. -/
def normalisePrivateKey (pemText passphrase : String) : Except VaultError (Bytes × String) :=
  let raw := trimSpace pemText ++ "\n"
  match ssh.parseRawPrivateKey raw with
  | .ok key => encodeKey ssh key
  | .error (.other why) => .error (.badKey why)
  | .error .passphraseMissing =>
    if passphrase = "" then .error .passphrase
    else
      match ssh.parseRawPrivateKeyWithPassphrase raw passphrase with
      | .ok key => encodeKey ssh key
      | .error why =>
        if contains why "passphrase" || contains why "decrypt" then .error .passphrase
        else .error (.badKey why)

/-- The PEM is the private half of the public key. -/
def PrivateHalf (pem : Bytes) (pub : String) : Prop :=
  ∃ key, encodeKey ssh key = .ok (pem, pub)

variable {ssh}

theorem privateHalf_of_normalise {pemText passphrase pub : String} {pem : Bytes}
    (h : normalisePrivateKey ssh pemText passphrase = .ok (pem, pub)) : PrivateHalf ssh pem pub := by
  unfold normalisePrivateKey at h
  dsimp only at h
  split at h
  · exact ⟨_, h⟩
  · cases h
  split at h
  · cases h
  split at h
  · exact ⟨_, h⟩
  · split at h <;> cases h

end

/-! ## Rows -/

/-- `Type`. -/
inductive CredentialType where
  | password
  | sshKey
  | sshCA
  | domain
  | ec2InstanceConnect
  deriving DecidableEq

/-- `Mode`. -/
inductive Mode where
  | vaulted
  | userSupplied
  | passthrough
  deriving DecidableEq

/-- A row of `credentials`: the columns the four calls read or write. -/
structure Row where
  type : CredentialType
  mode : Mode
  secretEnc : Option Bytes
  keyVersion : Option Nat
  publicKey : Option String
  pendingSecretEnc : Option Bytes
  pendingKeyVersion : Option Nat
  pendingPublicKey : Option String
  pendingCreatedAt : Option Int
  retiredPublicKey : Option String
  retiredAt : Option Int
  rotatedAt : Option Int
  updatedAt : Int

/-- `Rotation`. -/
structure Rotation where
  pendingPublicKey : String
  pendingSince : Option Int
  retiredPublicKey : String
  retiredAt : Option Int

/-- `Credential`: what `Get` returns, as far as the calls look at it. -/
structure Credential where
  type : CredentialType
  mode : Mode
  publicKey : String
  rotation : Option Rotation

/-- `scan`. -/
def Row.scan (r : Row) : Credential where
  type := r.type
  mode := r.mode
  publicKey := r.publicKey.getD ""
  rotation :=
    if r.pendingPublicKey.isSome || r.retiredPublicKey.isSome then
      some ⟨r.pendingPublicKey.getD "", r.pendingCreatedAt, r.retiredPublicKey.getD "", r.retiredAt⟩
    else none

/-- A next key is prepared, as the calls ask. -/
def Credential.pending (c : Credential) : Bool := c.rotation.any (·.pendingPublicKey ≠ "")

/-- An old public key is left to remove. -/
def Credential.retired (c : Credential) : Bool := c.rotation.any (·.retiredPublicKey ≠ "")

/-- A ciphertext with the version of its data key. -/
structure Sealed where
  ciphertext : Bytes
  version : Nat
  deriving DecidableEq

/-! ## Updates -/

/-- The `UPDATE` of `PrepareRotation`. -/
def Row.prepare (r : Row) (sealed : Sealed) (pub : String) (now : Int) : Row :=
  { r with
    pendingSecretEnc := some sealed.ciphertext
    pendingPublicKey := some pub
    pendingKeyVersion := some sealed.version
    pendingCreatedAt := some now
    updatedAt := now }

/-- The `UPDATE` of `CutOver`: the public keys are the ones the row has by then. -/
def Row.cutOver (r : Row) (sealed : Sealed) (now : Int) : Row :=
  { r with
    secretEnc := some sealed.ciphertext
    keyVersion := some sealed.version
    publicKey := r.pendingPublicKey
    retiredPublicKey := r.publicKey
    retiredAt := some now
    rotatedAt := some now
    updatedAt := now
    pendingSecretEnc := none
    pendingPublicKey := none
    pendingKeyVersion := none
    pendingCreatedAt := none }

/-- The `UPDATE` of `CancelRotation`. -/
def Row.cancelRotation (r : Row) (now : Int) : Row :=
  { r with
    pendingSecretEnc := none
    pendingPublicKey := none
    pendingKeyVersion := none
    pendingCreatedAt := none
    updatedAt := now }

/-- The `UPDATE` of `Retire`. -/
def Row.retire (r : Row) (now : Int) : Row :=
  { r with retiredPublicKey := none, retiredAt := none, updatedAt := now }

/-! ## Calls -/

/-- `Secret`, as `PrepareRotation` takes it. -/
structure SecretText where
  privateKey : String
  passphrase : String

inductive Call where
  | prepareRotation (secret : Option SecretText)
  | cutOver
  | cancelRotation
  | retire

/-- Where a call is. Each but the first and the last two names the step that is next. -/
inductive Phase where
  | idle
  /-- The `Get` a call begins with. -/
  | get (call : Call)
  | prepareSeal (pem : Bytes) (pub : String)
  | prepareUpdate (pem : Bytes) (sealed : Sealed) (pub : String)
  | cutOverRead
  | cutOverOpen (read : Sealed)
  | cutOverSeal (read : Sealed) (plain : Bytes)
  | cutOverUpdate (read : Sealed) (plain : Bytes) (sealed : Sealed)
  | cancelUpdate
  | retireUpdate
  /-- The `Get` a call returns with. -/
  | answer
  | done (result : Except VaultError Credential)

/-- What a call makes of the row it read first. -/
def Call.check (ssh : Ssh) (c : Credential) : Call → Except VaultError Phase
  | .prepareRotation secret =>
    if c.type ≠ .sshCA ∨ c.mode ≠ .vaulted then
      .error (.invalid "only a certificate authority is rotated in two steps")
    else if c.pending then .error .rotationPending
    else
      match secret with
      | none => .error (.invalid "private_key required")
      | some s =>
        if s.privateKey = "" then .error (.invalid "private_key required")
        else
          match normalisePrivateKey ssh s.privateKey s.passphrase with
          | .error e => .error e
          | .ok (pem, pub) =>
            if pub = c.publicKey then
              .error (.invalid "the next key must differ from the current one")
            else .ok (.prepareSeal pem pub)
  | .cutOver => if c.pending then .ok .cutOverRead else .error .noRotation
  | .cancelRotation => if c.pending then .ok .cancelUpdate else .error .noRotation
  | .retire => if c.retired then .ok .retireUpdate else .error .noRotation

/-! ## The machine -/

/-- What an update that took effect did. -/
inductive Change where
  | prepared (pem : Bytes)
  | cancelled
  | cutOver (pem : Bytes)
  | retired
  deriving DecidableEq

structure State where
  ring : RingState
  row : Row
  calls : Nat → Phase
  /-- The updates that took effect, the last one first. -/
  log : List Change

/-- What a step is given from outside. -/
structure Input where
  /-- The statement succeeds. -/
  ok : Bool
  now : Int
  nonce : Option Nonce
  mayReload : Bool

inductive Label where
  | call (i : Nat) (c : Call)
  | next (i : Nat) (input : Input)

theorem colon_notMem_credentials : ascii ':' ∉ lit "credentials" := by decide

/-- `table`. -/
def table : TableName := ⟨lit "credentials", colon_notMem_credentials⟩

/-- `pendingTable`: the scope of the prepared key. -/
def pendingTable : TableName := ⟨lit "credentials.pending", by decide⟩

section

variable (aead : Aead) (ssh : Ssh) (id : Bytes)

/-- `Encrypt` of the ring, which keeps what it sealed beside it. -/
def encrypt (ring : RingState) (t : TableName) (nonce : Option Nonce) (plain : Bytes) :
    Except RingError (RingState × Sealed) :=
  match ring.ring with
  | none => .error .closed
  | some r =>
    match Keyring.encrypt aead ring.memory r (Keyring.aad t.1 id) nonce plain with
    | .error e => .error e
    | .ok (c, v) => .ok ({ ring with secrets := ⟨t, id, plain, c, v⟩ :: ring.secrets }, ⟨c, v⟩)

/-- `Decrypt` of the ring, which may load its versions again. -/
def decrypt (ring : RingState) (t : TableName) (x : Sealed) (mayReload : Bool) :
    RingState × Except RingError Bytes :=
  match ring.ring with
  | none => (ring, .error .closed)
  | some r =>
    match Keyring.decrypt aead ring.versions ring.memory r (Keyring.aad t.1 id) x.ciphertext
      x.version mayReload with
    | (m, r, result) => ({ ring with memory := m, ring := some r }, result)

/-- The next step of call `i`. -/
def advance (s : State) (i : Nat) (input : Input) : Phase → Option State
  | .idle => none
  | .done _ => none
  | .get c =>
    if !input.ok then some (ends s (.error .store))
    else
      match c.check ssh s.row.scan with
      | .error e => some (ends s (.error e))
      | .ok p => some (goes s p)
  | .prepareSeal pem pub =>
    match encrypt aead id s.ring pendingTable input.nonce pem with
    | .error e => some (ends s (.error (.ring e)))
    | .ok (ring, sealed) => some (goes { s with ring := ring } (.prepareUpdate pem sealed pub))
  | .prepareUpdate pem sealed pub =>
    if !input.ok then some (ends s (.error .store))
    else some (writes s (s.row.prepare sealed pub input.now) (.prepared pem))
  | .cutOverRead =>
    if !input.ok then some (ends s (.error .store))
    else
      match s.row.pendingSecretEnc with
      | none | some [] => some (ends s (.error .noSecret))
      | some c => some (goes s (.cutOverOpen ⟨c, s.row.pendingKeyVersion.getD 0⟩))
  | .cutOverOpen read =>
    match decrypt aead id s.ring pendingTable read input.mayReload with
    | (ring, .error e) => some (ends { s with ring := ring } (.error (.unseal e)))
    | (ring, .ok plain) => some (goes { s with ring := ring } (.cutOverSeal read plain))
  | .cutOverSeal read plain =>
    match encrypt aead id s.ring table input.nonce plain with
    | .error e => some (ends s (.error (.ring e)))
    | .ok (ring, sealed) => some (goes { s with ring := ring } (.cutOverUpdate read plain sealed))
  | .cutOverUpdate _ plain sealed =>
    if !input.ok then some (ends s (.error .store))
    else some (writes s (s.row.cutOver sealed input.now) (.cutOver plain))
  | .cancelUpdate =>
    if !input.ok then some (ends s (.error .store))
    else some (writes s (s.row.cancelRotation input.now) .cancelled)
  | .retireUpdate =>
    if !input.ok then some (ends s (.error .store))
    else some (writes s (s.row.retire input.now) .retired)
  | .answer => some (ends s (if input.ok then .ok s.row.scan else .error .store))
where
  goes (s : State) (p : Phase) : State := { s with calls := Function.update s.calls i p }
  ends (s : State) (result : Except VaultError Credential) : State := goes s (.done result)
  writes (s : State) (row : Row) (change : Change) : State :=
    goes { s with row := row, log := change :: s.log } .answer

/-- One step. -/
def step (s : State) : Label → Option State
  | .call i c =>
    match s.calls i with
    | .idle => some { s with calls := Function.update s.calls i (.get c) }
    | _ => none
  | .next i input => advance aead ssh id s i input (s.calls i)

/-! ## What the row holds -/

/-- What the ring makes of two columns. -/
def State.opened (s : State) (t : TableName) (sealed : Option Bytes) (version : Option Nat) :
    Option Bytes :=
  match s.ring.ring, sealed with
  | some r, some c =>
    (Keyring.decrypt aead s.ring.versions s.ring.memory r (Keyring.aad t.1 id) c
      (version.getD 0) false).2.2.toOption
  | _, _ => none

/-- The sealed signing key, opened. -/
def State.signingKey (s : State) : Option Bytes :=
  s.opened aead id table s.row.secretEnc s.row.keyVersion

/-- The sealed next key, opened. -/
def State.nextKey (s : State) : Option Bytes :=
  s.opened aead id pendingTable s.row.pendingSecretEnc s.row.pendingKeyVersion

end

/-- The key was prepared, and nothing was cancelled since. -/
def Available (log : List Change) (pem : Bytes) : Prop :=
  ∃ later earlier, log = later ++ .prepared pem :: earlier ∧ .cancelled ∉ later

/-- A cut-over took effect for the key while it was available. -/
def TookOver (log : List Change) (pem : Bytes) : Prop :=
  ∃ later earlier, log = later ++ .cutOver pem :: earlier ∧ Available earlier pem

/-- The keys in the row are pairs, and the signing key came there by a cut-over. -/
structure KeysMatch (aead : Aead) (ssh : Ssh) (id original : Bytes) (s : State) : Prop where
  signing : ∃ pem pub, s.signingKey aead id = some pem ∧ s.row.publicKey = some pub ∧
    PrivateHalf ssh pem pub
  present : s.row.pendingSecretEnc.isSome ↔ s.row.pendingPublicKey.isSome
  next : ∀ pub, s.row.pendingPublicKey = some pub →
    ∃ pem, s.nextKey aead id = some pem ∧ PrivateHalf ssh pem pub
  origin : ∀ pem, s.signingKey aead id = some pem → pem = original ∨ TookOver s.log pem

/-- The row as `Create` left it, sealed by a ring that was opened once, and no call yet. -/
structure Created (aead : Aead) (ssh : Ssh) (id original : Bytes) (s : State) : Prop where
  ring : ∃ ls, Run (ringStep aead) .init ls s.ring
  opened : s.ring.ring.isSome
  sealed : ∃ c v, ⟨table, id, original, c, v⟩ ∈ s.ring.secrets ∧ s.row.secretEnc = some c ∧
    s.row.keyVersion = some v
  pair : ∃ pub, s.row.publicKey = some pub ∧ PrivateHalf ssh original pub
  noSecret : s.row.pendingSecretEnc = none
  noPublic : s.row.pendingPublicKey = none
  idle : ∀ i, s.calls i = .idle
  log : s.log = []

/-- What a cut-over about to write has unsealed. -/
def Phase.unsealed : Phase → Option Sealed
  | .cutOverUpdate read _ _ => some read
  | _ => none

/-- The next key a cut-over unsealed is still in the row when it writes. -/
def UnsealedIsNext (s : State) : Label → Prop
  | .call _ _ => True
  | .next i input => ∀ read ∈ (s.calls i).unsealed, input.ok = true →
    s.row.pendingSecretEnc = some read.ciphertext ∧ s.row.pendingKeyVersion = some read.version

instance (s : State) (l : Label) : Decidable (UnsealedIsNext s l) := by
  unfold UnsealedIsNext
  split <;> infer_instance

/-! ## The ring -/

section Ring

variable {aead : Aead} {id : Bytes} {t : TableName} {ring : RingState} {x : Sealed} {pem : Bytes}

/-- The ring sealed the key for this row. -/
def Kept (id : Bytes) (ring : RingState) (t : TableName) (x : Sealed) (pem : Bytes) : Prop :=
  ⟨t, id, pem, x.ciphertext, x.version⟩ ∈ ring.secrets

/-- The ring is open, and has forgotten nothing. -/
structure Grows (aead : Aead) (ring ring' : RingState) : Prop where
  inv : ring'.Inv aead
  opened : ring'.ring.isSome
  keeps : ring.secrets ⊆ ring'.secrets

theorem encrypt_spec {ring' : RingState} {nonce : Option Nonce}
    {plain : Bytes} (hinv : ring.Inv aead)
    (h : encrypt aead id ring t nonce plain = .ok (ring', x)) :
    Grows aead ring ring' ∧ Kept id ring' t x plain := by
  unfold encrypt at h
  split at h
  · cases h
  rename_i r hring
  split at h
  · cases h
  rename_i c v hencrypt
  cases h
  refine ⟨⟨hinv.encrypt hring hencrypt, ?_, subset_cons_self _ _⟩, mem_cons_self⟩
  rw [hring]
  rfl

/-- What the ring sealed it opens, and is left as it was. -/
theorem decrypt_of_kept
    (hinv : ring.Inv aead) (hopened : ring.ring.isSome) (h : Kept id ring t x pem)
    (mayReload : Bool) : decrypt aead id ring t x mayReload = (ring, .ok pem) := by
  obtain ⟨r, hring⟩ := Option.isSome_iff_exists.mp hopened
  obtain ⟨-, hsealed, hserves⟩ := hinv.ring r hring
  have hopens := (decrypt_of_serves hserves h (hsealed _ h) mayReload).1
  unfold decrypt
  rw [hring]
  dsimp only
  rw [show Keyring.aad t.1 id = Secret.aad ⟨t, id, pem, x.ciphertext, x.version⟩ from rfl, hopens,
    ← hring]

theorem Kept.unique {pem' : Bytes}
    (hinv : ring.Inv aead) (hopened : ring.ring.isSome) (h : Kept id ring t x pem)
    (h' : Kept id ring t x pem') : pem = pem' := by
  have hopens := decrypt_of_kept hinv hopened h false
  rw [decrypt_of_kept hinv hopened h' false] at hopens
  exact (Except.ok.inj (Prod.mk.inj hopens).2).symm

theorem State.opened_of_kept {s : State} {c : Bytes} {v : Nat}
    (hinv : s.ring.Inv aead) (hopened : s.ring.ring.isSome) (h : Kept id s.ring t ⟨c, v⟩ pem) :
    s.opened aead id t (some c) (some v) = some pem := by
  have hopens : s.opened aead id t (some c) (some v) =
      (decrypt aead id s.ring t ⟨c, v⟩ false).2.toOption := by
    unfold State.opened decrypt
    cases s.ring.ring <;> rfl
  rw [hopens, decrypt_of_kept hinv hopened h]
  rfl

end Ring

/-! ## The invariant -/

section Invariant

variable {aead : Aead} {ssh : Ssh} {id original : Bytes} {row : Row} {log : List Change}
  {ring ring' : RingState} {p : Phase} {s : State} {i : Nat} {s' : State}

/-- The signing key in the row, and how it came there. -/
def Signing (ssh : Ssh) (id original : Bytes) (ring : RingState) (row : Row) (log : List Change) :
    Prop :=
  ∃ pem pub c v, Kept id ring table ⟨c, v⟩ pem ∧ row.secretEnc = some c ∧
    row.keyVersion = some v ∧ row.publicKey = some pub ∧ PrivateHalf ssh pem pub ∧
    (pem = original ∨ TookOver log pem)

/-- The next key in the row, or none. -/
def Next (ssh : Ssh) (id : Bytes) (ring : RingState) (row : Row) (log : List Change) : Prop :=
  row.pendingSecretEnc = none ∧ row.pendingPublicKey = none ∨
  ∃ pem pub c v, Kept id ring pendingTable ⟨c, v⟩ pem ∧ row.pendingSecretEnc = some c ∧
    row.pendingKeyVersion = some v ∧ row.pendingPublicKey = some pub ∧ PrivateHalf ssh pem pub ∧
    Available log pem

/-- What a call in flight holds. -/
def Holds (ssh : Ssh) (id : Bytes) (ring : RingState) : Phase → Prop
  | .prepareSeal pem pub => PrivateHalf ssh pem pub
  | .prepareUpdate pem sealed pub => PrivateHalf ssh pem pub ∧ Kept id ring pendingTable sealed pem
  | .cutOverOpen read => ∃ pem, Kept id ring pendingTable read pem
  | .cutOverSeal read plain => Kept id ring pendingTable read plain
  | .cutOverUpdate read plain sealed =>
    Kept id ring pendingTable read plain ∧ Kept id ring table sealed plain
  | _ => True

structure Inv (aead : Aead) (ssh : Ssh) (id original : Bytes) (s : State) : Prop where
  ring : s.ring.Inv aead
  opened : s.ring.ring.isSome
  signing : Signing ssh id original s.ring s.row s.log
  next : Next ssh id s.ring s.row s.log
  calls : ∀ i, Holds ssh id s.ring (s.calls i)

theorem Signing.mono
    (h : Signing ssh id original ring row log) (hkeeps : ring.secrets ⊆ ring'.secrets) :
    Signing ssh id original ring' row log := by
  obtain ⟨pem, pub, c, v, hkept, hrest⟩ := h
  exact ⟨pem, pub, c, v, hkeeps hkept, hrest⟩

theorem Next.mono (h : Next ssh id ring row log) (hkeeps : ring.secrets ⊆ ring'.secrets) :
    Next ssh id ring' row log := by
  rcases h with hnone | ⟨pem, pub, c, v, hkept, hrest⟩
  · exact .inl hnone
  · exact .inr ⟨pem, pub, c, v, hkeeps hkept, hrest⟩

theorem Holds.mono (h : Holds ssh id ring p)
    (hkeeps : ring.secrets ⊆ ring'.secrets) : Holds ssh id ring' p := by
  cases p with
  | prepareUpdate pem sealed pub => exact ⟨h.1, hkeeps h.2⟩
  | cutOverOpen read =>
    obtain ⟨pem, hkept⟩ := h
    exact ⟨pem, hkeeps hkept⟩
  | cutOverSeal read plain => exact hkeeps h
  | cutOverUpdate read plain sealed => exact ⟨hkeeps h.1, hkeeps h.2⟩
  | _ => exact h

theorem TookOver.cons {pem : Bytes} (h : TookOver log pem) (c : Change) :
    TookOver (c :: log) pem := by
  obtain ⟨later, earlier, rfl, havailable⟩ := h
  exact ⟨c :: later, earlier, rfl, havailable⟩

theorem Available.cons {pem : Bytes} (h : Available log pem) {c : Change}
    (hc : c ≠ .cancelled) : Available (c :: log) pem := by
  obtain ⟨later, earlier, rfl, hlater⟩ := h
  refine ⟨c :: later, earlier, rfl, ?_⟩
  rw [mem_cons, not_or]
  exact ⟨Ne.symm hc, hlater⟩

/-- A call goes on, and the ring may have sealed something for it. -/
theorem Inv.goes (h : Inv aead ssh id original s) (hgrows : Grows aead s.ring ring)
    (hp : Holds ssh id ring p) :
    Inv aead ssh id original { s with ring := ring, calls := Function.update s.calls i p } where
  ring := hgrows.inv
  opened := hgrows.opened
  signing := h.signing.mono hgrows.keeps
  next := h.next.mono hgrows.keeps
  calls j := by
    by_cases hj : j = i
    · subst hj
      simpa using hp
    · simpa [hj] using (h.calls j).mono hgrows.keeps

theorem Inv.grows (h : Inv aead ssh id original s) : Grows aead s.ring s.ring :=
  ⟨h.ring, h.opened, List.Subset.refl _⟩

theorem Inv.writes {change : Change}
    (h : Inv aead ssh id original s) (hsigning : Signing ssh id original s.ring row (change :: s.log))
    (hnext : Next ssh id s.ring row (change :: s.log)) :
    Inv aead ssh id original (advance.writes i s row change) :=
  Inv.goes (s := { s with row := row, log := change :: s.log })
    ⟨h.ring, h.opened, hsigning, hnext, h.calls⟩ h.grows trivial

theorem Inv.ends (h : Inv aead ssh id original s)
    (result : Except VaultError Credential) : Inv aead ssh id original (advance.ends i s result) :=
  h.goes h.grows trivial

theorem Signing.of_eq {row' : Row}
    (h : Signing ssh id original ring row log) (c : Change) (hsecret : row'.secretEnc = row.secretEnc)
    (hversion : row'.keyVersion = row.keyVersion) (hpublic : row'.publicKey = row.publicKey) :
    Signing ssh id original ring row' (c :: log) := by
  obtain ⟨pem, pub, ct, v, hkept, hs, hv, hp, hhalf, horigin⟩ := h
  refine ⟨pem, pub, ct, v, hkept, hsecret.trans hs, hversion.trans hv, hpublic.trans hp, hhalf, ?_⟩
  exact horigin.imp_right fun htook => htook.cons c

/-- What a call goes on with after its first read. -/
theorem holds_of_check {c : Credential} {call : Call} (h : call.check ssh c = .ok p) :
    Holds ssh id ring p := by
  cases call with
  | prepareRotation secret =>
    simp only [Call.check] at h
    split at h
    · cases h
    split at h
    · cases h
    split at h
    · cases h
    split at h
    · cases h
    split at h
    · cases h
    rename_i pem pub hnormalise
    split at h
    · cases h
    cases h
    exact privateHalf_of_normalise hnormalise
  | cutOver | cancelRotation | retire =>
    simp only [Call.check] at h
    split at h <;> cases h
    exact trivial

/-- **One step.** -/
theorem Inv.advance {input : Input} (h : Inv aead ssh id original s)
    (hcond : UnsealedIsNext s (.next i input))
    (hstep : advance aead ssh id s i input (s.calls i) = some s') :
    Inv aead ssh id original s' := by
  have hholds := h.calls i
  simp only [UnsealedIsNext] at hcond
  generalize s.calls i = phase at hstep hholds hcond
  cases phase <;> simp only [Vault.advance, reduceCtorEq] at hstep
  case get call =>
    split at hstep
    · cases hstep
      exact h.ends _
    split at hstep <;> cases hstep
    · exact h.ends _
    · rename_i hcheck
      exact h.goes h.grows (holds_of_check hcheck)
  case prepareSeal pem pub =>
    split at hstep <;> cases hstep
    · exact h.ends _
    · rename_i ring sealed hencrypt
      obtain ⟨hgrows, hkept⟩ := encrypt_spec h.ring hencrypt
      exact h.goes hgrows ⟨hholds, hkept⟩
  case prepareUpdate pem sealed pub =>
    split at hstep <;> cases hstep
    · exact h.ends _
    · refine h.writes (h.signing.of_eq _ rfl rfl rfl) (.inr ?_)
      -- prepared by this very statement, and not cancelled since
      exact ⟨pem, pub, sealed.ciphertext, sealed.version, hholds.2, rfl, rfl, rfl, hholds.1,
        [], s.log, rfl, not_mem_nil⟩
  case cutOverRead =>
    split at hstep
    · cases hstep
      exact h.ends _
    split at hstep <;> cases hstep
    · exact h.ends _
    · exact h.ends _
    · rename_i c _ hread
      rcases h.next with ⟨hnone, -⟩ | ⟨pem, pub, c', v, hkept, hc, hv, -⟩
      · cases hnone.symm.trans hread
      · cases hc.symm.trans hread
        refine h.goes h.grows ⟨pem, ?_⟩
        rw [hv]
        exact hkept
  case cutOverOpen read =>
    obtain ⟨pem, hkept⟩ := hholds
    rw [decrypt_of_kept h.ring h.opened hkept] at hstep
    cases hstep
    exact h.goes h.grows hkept
  case cutOverSeal read plain =>
    split at hstep <;> cases hstep
    · exact h.ends _
    · rename_i ring sealed hencrypt
      obtain ⟨hgrows, hkept⟩ := encrypt_spec h.ring hencrypt
      exact h.goes hgrows ⟨hgrows.keeps hholds, hkept⟩
  case cutOverUpdate read plain sealed =>
    split at hstep <;> cases hstep
    · exact h.ends _
    rename_i hok
    obtain ⟨hsecret, hversion⟩ := hcond read rfl (by simpa using hok)
    refine h.writes ?_ (.inl ⟨rfl, rfl⟩)
    -- the next key in the row is the one the call unsealed
    rcases h.next with ⟨hnone, -⟩ | ⟨pem, pub, c, v, hkept, hc, hv, hp, hhalf, havailable⟩
    · cases hnone.symm.trans hsecret
    cases hc.symm.trans hsecret
    cases hv.symm.trans hversion
    obtain rfl := Kept.unique h.ring h.opened hkept hholds.1
    exact ⟨pem, pub, sealed.ciphertext, sealed.version, hholds.2, rfl, rfl, hp, hhalf,
      .inr ⟨[], s.log, rfl, havailable⟩⟩
  case cancelUpdate =>
    split at hstep <;> cases hstep
    · exact h.ends _
    · exact h.writes (h.signing.of_eq _ rfl rfl rfl) (.inl ⟨rfl, rfl⟩)
  case retireUpdate =>
    split at hstep <;> cases hstep
    · exact h.ends _
    · refine h.writes (h.signing.of_eq _ rfl rfl rfl) ?_
      rcases h.next with hnone | ⟨pem, pub, c, v, hkept, hc, hv, hp, hhalf, havailable⟩
      · exact .inl hnone
      · exact .inr ⟨pem, pub, c, v, hkept, hc, hv, hp, hhalf, havailable.cons (by decide)⟩
  case answer =>
    cases hstep
    exact h.ends _

theorem Inv.step {l : Label} (h : Inv aead ssh id original s)
    (hcond : UnsealedIsNext s l) (hstep : step aead ssh id s l = some s') :
    Inv aead ssh id original s' := by
  cases l with
  | call i c =>
    simp only [Vault.step] at hstep
    split at hstep <;> cases hstep
    exact h.goes h.grows trivial
  | next i input => exact h.advance hcond hstep

theorem Created.inv (h : Created aead ssh id original s) : Inv aead ssh id original s where
  ring := by
    obtain ⟨ls, hrun⟩ := h.ring
    exact hrun.keeps (RingState.Inv aead) (fun _ _ _ _ => ringStep_inv) RingState.inv_init
  opened := h.opened
  signing := by
    obtain ⟨c, v, hkept, hsecret, hversion⟩ := h.sealed
    obtain ⟨pub, hpublic, hhalf⟩ := h.pair
    exact ⟨original, pub, c, v, hkept, hsecret, hversion, hpublic, hhalf, .inl rfl⟩
  next := .inl ⟨h.noSecret, h.noPublic⟩
  calls i := by
    rw [h.idle i]
    exact trivial

theorem Inv.keysMatch (h : Inv aead ssh id original s) : KeysMatch aead ssh id original s := by
  obtain ⟨pem, pub, c, v, hkept, hsecret, hversion, hpublic, hhalf, horigin⟩ := h.signing
  have hsigning : s.signingKey aead id = some pem := by
    rw [State.signingKey, hsecret, hversion, State.opened_of_kept h.ring h.opened hkept]
  refine ⟨⟨pem, pub, hsigning, hpublic, hhalf⟩, ?_, ?_, ?_⟩
  case refine_1 =>
    rcases h.next with ⟨hnone, hnone'⟩ | ⟨_, _, _, _, _, hc, _, hp, _⟩
    · rw [hnone, hnone']
      exact Iff.rfl
    · rw [hc, hp]
      exact Iff.rfl
  case refine_2 =>
    intro pub' hpub'
    rcases h.next with ⟨-, hnone⟩ | ⟨pem', pub'', c', v', hkept', hc, hv, hp, hhalf', -⟩
    · cases hnone.symm.trans hpub'
    · cases hp.symm.trans hpub'
      refine ⟨pem', ?_, hhalf'⟩
      rw [State.nextKey, hc, hv, State.opened_of_kept h.ring h.opened hkept']
  case refine_3 =>
    intro pem' hpem'
    cases hsigning.symm.trans hpem'
    exact horigin

/-- **Keys stay pairs.** In every run of the four calls in which each cut-over finds the next key it
unsealed still in the row when it writes: the sealed signing key is the private half of the public
key, a sealed next key is there exactly when a next public key is and is its private half, and the
signing key is the first one or one that was prepared and not cancelled before the cut-over. -/
theorem keys_match {s₀ s : State} {ls : List Label} (h₀ : Created aead ssh id original s₀)
    (h : RunWhere (step aead ssh id) UnsealedIsNext s₀ ls s) : KeysMatch aead ssh id original s :=
  (h.keeps (Inv aead ssh id original) (fun _ _ _ hcond hinv hs => hinv.step hcond hs)
    h₀.inv).keysMatch

end Invariant

/-! ## Runs on one row -/

inductive ThreeKeys where
  | first
  | second
  | third

/-- Three keys, each read from its number. -/
def threeKeys : Ssh where
  Key := ThreeKeys
  parseRawPrivateKey raw :=
    .ok (if raw = "1\n" then .first else if raw = "2\n" then .second else .third)
  parseRawPrivateKeyWithPassphrase _ _ := .error "bad passphrase"
  authorizedKey
    | .first => .ok "one\n"
    | .second => .ok "two\n"
    | .third => .ok "three\n"
  marshalPrivateKey
    | .first => .ok [1]
    | .second => .ok [2]
    | .third => .ok [3]

/-- A ring is opened, and seals the first key. -/
def sealsFirst : List RingLabel :=
  [.reopen (keyOf 1) (drawOf 7) true, .encrypt table [9] (some (nonceOf 3)) [1]]

def firstRing : RingState := (exec (ringStep .framed) .init sealsFirst).getD .init

/-- An authority that signs with the first key. -/
def firstRow : Row where
  type := .sshCA
  mode := .vaulted
  secretEnc := firstRing.secrets.head?.map Secret.ciphertext
  keyVersion := firstRing.secrets.head?.map Secret.version
  publicKey := some "one"
  pendingSecretEnc := none
  pendingKeyVersion := none
  pendingPublicKey := none
  pendingCreatedAt := none
  retiredPublicKey := none
  retiredAt := none
  rotatedAt := none
  updatedAt := 0

def firstState : State := ⟨firstRing, firstRow, fun _ => .idle, []⟩

theorem firstState_created : Created .framed threeKeys [9] [1] firstState where
  ring := by
    have hsome : (exec (ringStep .framed) .init sealsFirst).isSome := by decide +kernel
    obtain ⟨ring, hring⟩ := Option.isSome_iff_exists.mp hsome
    refine ⟨sealsFirst, Run.of_exec ?_⟩
    rw [firstState, firstRing, hring]
    rfl
  opened := by decide +kernel
  sealed := by
    have hone : firstRing.secrets.map (fun x => (x.table, x.id, x.plaintext)) =
        [(table, [9], [1])] := by decide +kernel
    obtain ⟨x, hx, hfields⟩ := map_eq_singleton_iff.mp hone
    obtain ⟨htable, hid, hplain⟩ : x.table = table ∧ x.id = [9] ∧ x.plaintext = [1] := by
      simpa using hfields
    refine ⟨x.ciphertext, x.version, ?_, ?_, ?_⟩
    · rw [← htable, ← hid, ← hplain]
      exact hx ▸ mem_singleton_self x
    · rw [firstState, firstRow, hx]
      rfl
    · rw [firstState, firstRow, hx]
      rfl
  pair := by
    refine ⟨"one", rfl, .first, ?_⟩
    have htrim : trimSpace "one\n" = "one" := by decide +kernel
    exact congrArg (fun text => Except.ok ([1], text)) htrim
  noSecret := rfl
  noPublic := rfl
  idle _ := rfl
  log := rfl

/-- A step that succeeds. -/
def input (n : UInt8) : Input := ⟨true, n.toNat, some (nonceOf n), false⟩

/-- The second key is prepared and cut over to. -/
def rotates : List Label :=
  [.call 0 (.prepareRotation (some ⟨"2", ""⟩)), .next 0 (input 1), .next 0 (input 2),
    .next 0 (input 3), .call 1 .cutOver, .next 1 (input 4), .next 1 (input 5), .next 1 (input 6),
    .next 1 (input 7), .next 1 (input 8)]

/-- A rotation nothing interferes with. -/
theorem keys_match_after_rotation :
    ∃ s, RunWhere (step .framed threeKeys [9]) UnsealedIsNext firstState rotates s ∧
      s.row.publicKey = some "two" ∧ KeysMatch .framed threeKeys [9] [1] s :=
  RunWhere.exists_of_decide (P := (·.row.publicKey = some "two")) (by decide +kernel)
    fun _ hrun hs => ⟨hs, keys_match firstState_created hrun⟩

/-- Between the reading of a cut-over and its update, the rotation is cancelled and the third key is
prepared. -/
def cutsOverLate : List Label :=
  [.call 0 (.prepareRotation (some ⟨"2", ""⟩)), .next 0 (input 1), .next 0 (input 2),
    .next 0 (input 3), .call 1 .cutOver, .next 1 (input 4), .next 1 (input 5), .next 1 (input 6),
    .next 1 (input 7), .call 2 .cancelRotation, .next 2 (input 8), .next 2 (input 9),
    .call 3 (.prepareRotation (some ⟨"3", ""⟩)), .next 3 (input 10), .next 3 (input 11),
    .next 3 (input 12), .next 1 (input 13)]

/-- The authority then signs with the key that was cancelled, and its public key is that of the
third one. -/
theorem late_cut_over_mixes_keys :
    Created .framed threeKeys [9] [1] firstState ∧
    ∃ s, Run (step .framed threeKeys [9]) firstState cutsOverLate s ∧
      s.signingKey .framed [9] = some [2] ∧ s.row.publicKey = some "three" ∧
      s.log = [.cutOver [2], .prepared [3], .cancelled, .prepared [2]] ∧
      ¬KeysMatch .framed threeKeys [9] [1] s := by
  refine ⟨firstState_created, Run.exists_of_decide (P := fun s =>
    s.signingKey .framed [9] = some [2] ∧ s.row.publicKey = some "three" ∧
      s.log = [.cutOver [2], .prepared [3], .cancelled, .prepared [2]])
    (by decide +kernel) fun s _ ⟨hsigning, hpublic, hlog⟩ => ⟨hsigning, hpublic, hlog, ?_⟩⟩
  intro hmatch
  obtain ⟨pem, pub, hpem, hpub, key, hkey⟩ := hmatch.signing
  cases hsigning.symm.trans hpem
  cases hpublic.symm.trans hpub
  cases key with
  | first | third => exact absurd (Prod.mk.inj (Except.ok.inj hkey)).1 (by decide)
  | second => exact absurd (Prod.mk.inj (Except.ok.inj hkey)).2 (by decide +kernel)

end Zanskar.Vault
