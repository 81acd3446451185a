import Zanskar.Connect.Endpoint
import Zanskar.Go.Net
import Zanskar.Lib.Check
import Zanskar.Lib.Pieces

/-!
# Database targets (`internal/target/target.go`)

A database target is an address, an engine and a TLS mode, and may name the database to open.
`Validate` normalises the fields and refuses what is out of shape; `validAddress` is its check of an
address, an IP literal or a host name.

- `DatabaseTarget.validate_spec` : what is known of the fields of a target that was accepted.
-/

namespace Zanskar

open Go Lib List

/-! ## Addresses -/

/-- What a label begins and ends with, `[a-zA-Z0-9]`. -/
def isLabelEnd (c : Char) : Bool :=
  inRange c 0x30 0x39 || inRange c 0x41 0x5A || inRange c 0x61 0x7A

/-- A label of a host name, `[a-zA-Z0-9]([a-zA-Z0-9-]{0,62}[a-zA-Z0-9])?`. -/
def isLabel (l : List Char) : Bool :=
  l.length ≤ 64 && l.head?.any isLabelEnd && l.getLast?.any isLabelEnd &&
    l.all fun c => isLabelEnd c || c = '-'

/-- `hostnameRe`: labels with dots between them, and at most one more dot at the end. -/
def hostnameRe (s : List Char) : Bool :=
  let labels := s.splitOn '.'
  let labels := if labels.getLast? = some [] then labels.dropLast else labels
  !labels.isEmpty && labels.all isLabel

/-- `strings.ContainsAny`. -/
def containsAny (s chars : String) : Bool := s.toList.any (chars.toList.contains ·)

/-- `ValidAddress`. -/
def validAddress (s : String) : Bool :=
  if s = "" || 253 < s.utf8ByteSize || containsAny s " \t/\\@[]" then false
  else (parseIP s.toList).isSome || hostnameRe s.toList

example : validAddress "db-1.corp.example" = true ∧ validAddress "fe80::1" = true ∧
    validAddress "db'" = false ∧ validAddress "db\n" = false := by
  decide +kernel

/-- What an address is made of. -/
def isHostChar (c : Char) : Bool := isLabelEnd c || c = '-' || c = '.' || c = ':'

theorem isHostChar_of_isAddressChar {c : Char} (h : isAddressChar c) :
    isHostChar c := by
  simp only [isAddressChar, isHexDigit, inRange, Bool.or_eq_true, Bool.and_eq_true,
    decide_eq_true_eq] at h
  simp only [isHostChar, isLabelEnd, inRange, Bool.or_eq_true, Bool.and_eq_true, decide_eq_true_eq]
  rcases h with (hhex | hdot) | hcolon
  · refine .inl (.inl (.inl ?_))
    omega
  · exact .inl (.inr hdot)
  · exact .inr hcolon

theorem isHostChar_of_isLabel {l : List Char} (h : isLabel l) :
    ∀ c ∈ l, isHostChar c := by
  intro c hc
  simp only [isLabel, Bool.and_eq_true, all_eq_true] at h
  have := h.2 c hc
  simp only [Bool.or_eq_true, decide_eq_true_eq] at this
  rcases this with halnum | hdash
  · simp [isHostChar, halnum]
  · simp [isHostChar, hdash]

theorem isHostChar_of_hostnameRe {s : List Char} (h : hostnameRe s) :
    ∀ c ∈ s, isHostChar c := by
  simp only [hostnameRe, Bool.and_eq_true, all_eq_true] at h
  intro c hc
  rcases exists_mem_splitOn (d := '.') hc with rfl | ⟨l, hl, hcl⟩
  · decide
  · have hlabel : isLabel l := by
      refine h.2 l ?_
      split
      · rename_i hlast
        -- only the empty part at the end is left out
        rw [← dropLast_append_getLast? [] hlast, mem_append] at hl
        rcases hl with hl | hl
        · exact hl
        · rw [mem_singleton.mp hl] at hcl
          exact absurd hcl not_mem_nil
      · exact hl
    exact isHostChar_of_isLabel hlabel c hcl

variable {s : String}

/-- An address is made of letters, digits, dashes, dots and colons. -/
theorem isHostChar_of_validAddress (h : validAddress s) :
    ∀ c ∈ s.toList, isHostChar c := by
  unfold validAddress at h
  split at h
  · cases h
  · rcases (Bool.or_eq_true _ _).mp h with hip | hname
    · obtain ⟨ip, hip⟩ := Option.isSome_iff_exists.mp hip
      exact fun c hc => isHostChar_of_isAddressChar (isAddressChar_of_parseIP hip c hc)
    · exact isHostChar_of_hostnameRe hname

theorem ne_empty_of_validAddress (h : validAddress s) : s ≠ "" := by
  rintro rfl
  exact absurd h (by decide +kernel)

/-! ## Validation -/

/-- `TLSModes`. -/
def tlsModes : List String := ["disable", "prefer", "require", "verify-full"]

/-- `ValidEngine`. -/
def validEngine (e : String) : Bool := ["postgres", "mysql", "mariadb"].contains e

/-- `Target`, the fields a database session is made from. -/
structure DatabaseTarget where
  address : String
  engine : String
  databaseName : String
  tlsMode : String
  tlsCA : String
  /-- the port in `Ports` for databases -/
  port : Option Int
  deriving DecidableEq

/-- `ErrInvalid`, wrapped with what is wrong. -/
def invalidTarget (msg : String) : String := "target: invalid: " ++ msg

/-- `validCABundle`; `certs` is whether a text holds a PEM certificate (`AppendCertsFromPEM`). -/
def validCABundle (certs : String → Bool) (pem : String) : Except String Unit := do
  require (pem.utf8ByteSize ≤ 64 * 1024) (invalidTarget "tls_ca is too large")
  require (certs pem) (invalidTarget "tls_ca must hold at least one PEM certificate")

/-- `Validate` of a target with an engine. -/
def DatabaseTarget.validate (certs : String → Bool) (t : DatabaseTarget) :
    Except String DatabaseTarget := do
  let address := trimSpace t.address
  require (validAddress address)
    (invalidTarget "address must be a hostname or IP without scheme or port")
  let engine := toLower (trimSpace t.engine)
  require (validEngine engine) (invalidTarget "engine must be one of postgres, mysql, mariadb")
  let databaseName := trimSpace t.databaseName
  require (databaseName.utf8ByteSize ≤ 128 && !containsAny databaseName " \t\n\r'\"`;\\/")
    (invalidTarget "database_name must be a plain identifier of at most 128 characters")
  let mode := toLower (trimSpace t.tlsMode)
  let tlsMode := if mode = "" then "verify-full" else mode
  require (tlsModes.contains tlsMode)
    (invalidTarget ("tls_mode must be one of " ++ ", ".intercalate tlsModes))
  let tlsCA := trimSpace t.tlsCA
  (if tlsCA = "" then .ok () else validCABundle certs tlsCA)
  require (tlsMode ≠ "verify-full" || tlsCA ≠ "")
    (invalidTarget ("tls_mode verify-full (the default) needs tls_ca, the CA bundle that signs " ++
      "the database's certificate; for Amazon RDS, your region's bundle from " ++
      "https://truststore.pki.rds.amazonaws.com/<region>/<region>-bundle.pem. To connect " ++
      "without verifying, set tls_mode to require or prefer"))
  require (t.port.all fun n => 1 ≤ n && n ≤ 65535)
    (invalidTarget "port for database must be 1-65535")
  return ⟨address, engine, databaseName, tlsMode, tlsCA, t.port⟩

/-- What is known of a target that was accepted. -/
structure DatabaseTarget.Valid (t : DatabaseTarget) : Prop where
  address : validAddress t.address = true
  name_trimmed : trimSpace t.databaseName = t.databaseName
  name_plain : containsAny t.databaseName " \t\n\r'\"`;\\/" = false
  port : ∀ n, t.port = some n → 1 ≤ n ∧ n ≤ 65535

/-- What is accepted is well formed. -/
theorem DatabaseTarget.validate_spec {certs : String → Bool} {t v : DatabaseTarget}
    (h : t.validate certs = .ok v) : v.Valid := by
  simp only [validate, then_eq_ok, require_eq_ok, Bool.and_eq_true, Bool.not_eq_true'] at h
  obtain ⟨haddress, -, hname, -, -, -, hport, hv⟩ := h
  cases hv
  refine ⟨haddress, trimSpace_trimSpace _, hname.2, ?_⟩
  intro n (hn : t.port = some n)
  simpa [hn] using hport

end Zanskar
