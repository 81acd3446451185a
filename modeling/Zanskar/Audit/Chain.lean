import Zanskar.Go.JsonRewrite
import Zanskar.Go.Rfc3339

/-!
# The hash chain of the audit log

`internal/audit/chain.go`. An event is hashed over its canonical JSON, with the hash
of the event before it in front; the details go through Go's decoder and encoder on
the way. SHA-256 is a parameter.

- `verifyLink_eq_none` : a link is good if the event names the hash before it and has the
  hash of its content.
-/

namespace Zanskar.Audit

open Go

/-! ## Events -/

/-- A SHA-256 sum. -/
abbrev Digest := { d : Bytes // d.length = 32 }

/-- `hex.EncodeToString`. -/
def hex (bs : Bytes) : Bytes :=
  bs.flatMap fun b => [hexDigit (b.toNat / 16), hexDigit (b.toNat % 16)]

/-- `GenesisHash`. -/
def genesisHash : Bytes := List.replicate 64 (ascii '0')

/-- `Event`. -/
structure Event where
  id : Int
  ts : Int
  actorUserID : Bytes
  actorIP : Bytes
  action : Bytes
  objectType : Bytes
  objectID : Bytes
  outcome : Bytes
  details : Bytes
  prevHash : Bytes
  hash : Bytes
deriving DecidableEq

/-- Why an event has no hash. -/
inductive HashError where
  | json
  | notObject
deriving DecidableEq

/-- The text of the error; what the decoder itself reports is left out. -/
def HashError.text : HashError → String
  | .json => "audit: details is not valid JSON: "
  | .notObject => "audit: details is not valid JSON: details must be a JSON object"

/-- `compactJSON`. -/
def compactJSON (raw : Bytes) : Except HashError Bytes :=
  match unmarshal raw with
  | none => .error .json
  | some (.obj ms) => .ok (marshal (.obj ms))
  | some _ => .error .notObject

/-- The details that are hashed: an empty object for none. -/
def Event.detailsOrEmpty (e : Event) : Bytes :=
  if e.details = [] then lit "\x7b\x7d" else e.details

/-- The name of a field and the colon behind it. -/
def fieldName (name : String) : Bytes := ascii '"' :: (lit name ++ [ascii '"', ascii ':'])

/-- The fields of a struct in their order, and the closing brace. -/
def writeFields : List (String × Bytes) → Bytes
  | [] => [ascii '\x7d']
  | (name, text) :: fields =>
    fieldName name ++
      (text ++ if fields = [] then [ascii '\x7d'] else ascii ',' :: writeFields fields)

/-- `canonical`, with the text of each field. A `RawMessage` that the encoder itself has
written is compact, and stands as it is. -/
def Event.canonical (e : Event) (compact : Bytes) : List (String × Bytes) :=
  [("ts", quoteMarks ((rfc3339Nano e.ts).map some)),
    ("actor_user_id", quoteMarks (marks e.actorUserID)),
    ("actor_ip", quoteMarks (marks e.actorIP)),
    ("action", quoteMarks (marks e.action)),
    ("object_type", quoteMarks (marks e.objectType)),
    ("object_id", quoteMarks (marks e.objectID)),
    ("outcome", quoteMarks (marks e.outcome)),
    ("details", compact),
    ("prev_hash", quoteMarks (marks e.prevHash))]

/-- The body that is hashed behind the previous hash. -/
def Event.body (e : Event) (compact : Bytes) : Bytes :=
  ascii '\x7b' :: writeFields (e.canonical compact)

/-- The bytes `ComputeHash` writes to the hash. -/
def hashInput (e : Event) : Except HashError Bytes :=
  (compactJSON e.detailsOrEmpty).map fun compact => e.prevHash ++ e.body compact

/-- `ComputeHash`. -/
def computeHash (sha256 : Bytes → Digest) (e : Event) : Except HashError Bytes :=
  (hashInput e).map fun input => hex (sha256 input).1

/-- `Link`. -/
def link (sha256 : Bytes → Digest) (e : Event) (prevHash : Bytes) : Except HashError Event :=
  let e := { e with prevHash := if prevHash = [] then genesisHash else prevHash }
  (computeHash sha256 e).map fun h => { e with hash := h }

/-- `VerifyError.Reason`. -/
inductive Reason where
  | prevHash
  | details (err : HashError)
  | content
deriving DecidableEq

/-- The text of the reason. -/
def Reason.text : Reason → String
  | .prevHash => "prev_hash does not match previous event"
  | .details err => err.text
  | .content => "hash does not match content"

/-- `VerifyError`: where a chain broke. -/
structure VerifyError where
  index : Nat
  id : Int
  reason : Reason
deriving DecidableEq

/-- `verifyLink`. -/
def verifyLink (sha256 : Bytes → Digest) (idx : Nat) (e : Event) (prev : Bytes) :
    Option VerifyError :=
  if e.prevHash ≠ prev then some ⟨idx, e.id, .prevHash⟩
  else
    match computeHash sha256 e with
    | .error err => some ⟨idx, e.id, .details err⟩
    | .ok want => if want ≠ e.hash then some ⟨idx, e.id, .content⟩ else none

theorem verifyLink_eq_none {sha256 : Bytes → Digest} {idx : Nat} {e : Event} {prev : Bytes} :
    verifyLink sha256 idx e prev = none ↔
      e.prevHash = prev ∧ computeHash sha256 e = .ok e.hash := by
  unfold verifyLink
  split
  · rename_i h
    simp [h]
  · rename_i h
    rw [not_not] at h
    cases hc : computeHash sha256 e with
    | error err => simp
    | ok want =>
      by_cases hw : want = e.hash <;> simp [h, hw]

end Zanskar.Audit
