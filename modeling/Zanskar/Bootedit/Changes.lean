import Mathlib.Data.Bool.AllAny
import Zanskar.Lib.Check
import Zanskar.Lib.Fold
import Zanskar.Lifecycle.EnvFile

/-!
# What the console may change in the boot file (`Changes`)

`internal/bootedit/bootedit.go`. A request names variables of an allowlist with their new values,
or a preset of the TLS mode. `accepted_of_changes` says what is known of the changes that get
through: no variable is there twice, each is one of eleven plain names, and each value can stand
in a line of the file.
-/

namespace Zanskar.Bootedit

open Go Lib Lifecycle List

/-! ## The checks of the values -/

/-- The fields of a `url.URL` that are looked at; `user` is whether one is given. -/
structure URL where
  scheme : Bytes
  host : Bytes
  user : Bool
  path : Bytes
  rawQuery : Bytes
  fragment : Bytes

/-- What the checks leave to others: `url.Parse`, whether `net.ParseIP` reads an address,
`unicode.IsPrint` and `strconv.Quote`. -/
structure Parsers where
  parseURL : Bytes → Option URL
  parseIP : Bytes → Bool
  isPrint : Char → Bool
  quote : Bytes → Bytes

-- a check gives the reason why it refuses a value

/-- `sessionCap`. -/
def sessionCap (v : Bytes) : Option Bytes :=
  if (atoi v).any fun n => 0 ≤ n && n ≤ 1000 then none
  else some (lit "must be a whole number from 0 to 1000")

/-- `oneOf`. -/
def oneOf (choices : List Bytes) (v : Bytes) : Option Bytes :=
  if choices.contains v then none
  else some (lit "must be one of " ++ (lit ", ").intercalate choices)

def isLetter (b : UInt8) : Bool :=
  ascii 'A' ≤ b && b ≤ ascii 'Z' || ascii 'a' ≤ b && b ≤ ascii 'z'

def isLetterOrDigit (b : UInt8) : Bool := isLetter b || isDigit b

/-- A part of a host name between two dots. -/
def isHostLabel (label : Bytes) : Bool :=
  label.length ≤ 64 && label.head?.any isLetterOrDigit && label.getLast?.any isLetterOrDigit &&
    label.all fun b => isLetterOrDigit b || b = ascii '-'

/-- `arnRe`. -/
def isArn (v : Bytes) : Bool :=
  ((lit "arn:aws").isPrefixOf? v).any fun rest =>
    let rest := rest.dropWhile fun b => ascii 'a' ≤ b && b ≤ ascii 'z' || b = ascii '-'
    [lit ":iam::", lit ":sts::"].any fun service =>
      (service.isPrefixOf? rest).any fun rest =>
        (rest.take 12).length = 12 && (rest.take 12).all isDigit &&
          [lit ":role/", lit ":user/", lit ":assumed-role/"].any fun kind =>
            (kind.isPrefixOf? (rest.drop 12)).any fun name =>
              1 ≤ name.length && name.length ≤ 512 &&
                name.all fun b => isLetterOrDigit b || (lit "+=,.@_/-").contains b

/-- `awsPrincipal`. -/
def awsPrincipal (v : Bytes) : Option Bytes :=
  if isArn v then none else some (lit "must be an IAM role or user ARN")

section

variable (p : Parsers)

/-- `publicURL`. -/
def publicURL (v : Bytes) : Option Bytes :=
  let good := (p.parseURL v).any fun u =>
    u.scheme = lit "https" && u.host ≠ [] && !u.user && (u.path = [] || u.path = lit "/") &&
      u.rawQuery = [] && u.fragment = []
  if good then none
  else some (lit "must be an https:// address with no path, such as https://zanskar.example.com")

/-- `tlscert.ValidHost`. -/
def validHost (h : Bytes) : Option Bytes :=
  if p.parseIP h then none
  else if h.length > 253 || !(h.splitOn (ascii '.')).all isHostLabel then
    some (lit "tlscert: invalid certificate: " ++ p.quote h ++
      lit " is not a host name or IP address")
  else none

/-- `tlsHosts`. -/
def tlsHosts (v : Bytes) : Option Bytes :=
  let parts := v.splitOn (ascii ',')
  if parts.length > 32 then some (lit "must name at most 32 hosts")
  else
    (parts.findSome? fun h => validHost p (trimSpaces h)).map fun why =>
      lit "must list host names or IP addresses, comma-separated: " ++ why

/-- `issuer`. -/
def issuer (v : Bytes) : Option Bytes :=
  if runeCount v > 64 then some (lit "must be at most 64 characters")
  else if (marks v).any fun m => !p.isPrint (shown m) then some (lit "must be printable")
  else none

/-- `allowed`: the variables that can be set, each with its check. -/
def allowed : List (Bytes × (Bytes → Option Bytes)) :=
  [(lit "ZANSKAR_APPS_MAX_SESSIONS", sessionCap),
    (lit "ZANSKAR_DATABASE_MAX_SESSIONS", sessionCap),
    (lit "ZANSKAR_PUBLIC_URL", publicURL p),
    (lit "ZANSKAR_TLS_HOSTS", tlsHosts p),
    (lit "ZANSKAR_LOG_FORMAT", oneOf [lit "json", lit "text"]),
    (lit "ZANSKAR_ISSUER", issuer p),
    (lit "ZANSKAR_AWS_GATEWAY_PRINCIPAL", awsPrincipal)]

end

/-! ## Requests -/

/-- What is changed: variables and their new values, the empty one for a variable that is
taken out. No variable is there twice. -/
abbrev ChangeSet := List (Bytes × Bytes)

/-- The preset in which the gateway serves TLS itself. -/
def managed : ChangeSet :=
  [(lit "ZANSKAR_TLS_MODE", lit "managed"), (lit "ZANSKAR_LISTEN_ADDR", lit ":443"),
    (lit "ZANSKAR_HTTP_REDIRECT_ADDR", lit ":80"), (lit "ZANSKAR_TRUST_PROXY_TLS", lit "false")]

/-- The preset in which a proxy does. -/
def proxy : ChangeSet :=
  [(lit "ZANSKAR_TLS_MODE", lit "proxy"), (lit "ZANSKAR_LISTEN_ADDR", lit "127.0.0.1:8443"),
    (lit "ZANSKAR_HTTP_REDIRECT_ADDR", []), (lit "ZANSKAR_TRUST_PROXY_TLS", lit "true")]

/-- `presets`. -/
def presets (mode : Bytes) : Option ChangeSet :=
  if mode = lit "managed" then some managed
  else if mode = lit "proxy" then some proxy
  else none

/-- `Request`, as far as `Changes` reads it. -/
structure Request where
  values : ChangeSet
  tlsMode : Bytes

/-- Why a request is refused. -/
inductive ChangeError where
  | tlsMode
  | notAllowed (k : Bytes)
  | notText (k : Bytes)
  | notPlain (k : Bytes)
  /-- The check of the variable refuses the value, and says why. -/
  | check (k why : Bytes)
  | nothing
deriving DecidableEq

/-- `safeName`: a name from a request is repeated only if it is a plain one. -/
def safeName (k : Bytes) : Bytes :=
  let capital (b : UInt8) : Bool := ascii 'A' ≤ b && b ≤ ascii 'Z'
  if k.length ≤ 64 && k.head?.any capital &&
      k.all fun b => capital b || isDigit b || b = ascii '_' then k
  else lit "that variable"

/-- The text of the error. -/
def ChangeError.text (e : ChangeError) : Bytes :=
  lit "bootedit: invalid change: " ++ match e with
    | .tlsMode => lit "TLS mode must be managed or proxy"
    | .notAllowed k => safeName k ++ lit " cannot be changed from the console"
    | .notText k => k ++ lit " must be valid UTF-8 up to 1024 bytes"
    | .notPlain k =>
      k ++ lit " must not contain quotes, backslashes, $, backticks or control characters"
    | .check k why => k ++ lit " " ++ why
    | .nothing => lit "nothing to change"

/-- `plain`. -/
def plain (k v : Bytes) : Option ChangeError :=
  if !validString v || v.length > 1024 then some (.notText k)
  else if (marks v).any fun m =>
      shown m = '"' || shown m = '\\' || shown m = '`' || shown m = '$' || isControl (shown m) then
    some (.notPlain k)
  else none

/-- `out[k] = v`. -/
def setVar (out : ChangeSet) (k v : Bytes) : ChangeSet := out.filter (·.1 ≠ k) ++ [(k, v)]

section

variable (p : Parsers)

/-- One value of the request. -/
def change (out : ChangeSet) (kv : Bytes × Bytes) : Except ChangeError ChangeSet :=
  let v := trimSpaces kv.2
  match (allowed p).lookup kv.1 with
  | none => .error (.notAllowed kv.1)
  | some check =>
    match plain kv.1 v with
    | some e => .error e
    | none =>
      match if v = [] then none else check v with
      | some why => .error (.check kv.1 why)
      | none => .ok (setVar out kv.1 v)

/-- The changes of the preset that is asked for. -/
def presetOf (mode : Bytes) : Except ChangeError ChangeSet :=
  if mode = [] then .ok []
  else
    match presets mode with
    | none => .error .tlsMode
    | some preset => .ok preset

/-- `Changes`. -/
def changes (req : Request) : Except ChangeError ChangeSet := do
  let preset ← presetOf req.tlsMode
  let out ← (req.values.insertionSort fun a b => a.1 ≤ b.1).foldlM (change p) preset
  if out = [] then .error .nothing else .ok out

end

/-! ## What `Changes` lets through -/

/-- The variables that can be changed: those of `allowed`, and those of the presets. -/
def changeable : List Bytes :=
  ["ZANSKAR_APPS_MAX_SESSIONS", "ZANSKAR_DATABASE_MAX_SESSIONS", "ZANSKAR_PUBLIC_URL",
    "ZANSKAR_TLS_HOSTS", "ZANSKAR_LOG_FORMAT", "ZANSKAR_ISSUER", "ZANSKAR_AWS_GATEWAY_PRINCIPAL",
    "ZANSKAR_TLS_MODE", "ZANSKAR_LISTEN_ADDR", "ZANSKAR_HTTP_REDIRECT_ADDR",
    "ZANSKAR_TRUST_PROXY_TLS"].map lit

/-- What a value is that can stand in a line: it is trimmed, of modest length, and holds
neither double quotes nor backslashes nor the end of a line. -/
structure Writable (v : Bytes) : Prop where
  front : FrontTrimmed v
  ends : EndTrimmed v
  short : v.length ≤ 1024
  noQuote : ascii '"' ∉ v
  noBackslash : backslash ∉ v
  noEol : ∀ b ∈ v, isEol b = false

/-- What `Changes` lets through. -/
structure Accepted (c : ChangeSet) : Prop where
  nodup : (c.map Prod.fst).Nodup
  changeable : ∀ kv ∈ c, kv.1 ∈ changeable
  writable : ∀ kv ∈ c, Writable kv.2

theorem not_isEol_of_visible {b : UInt8} (h : isVisible b) : isEol b = false := by
  rw [isVisible, Bool.and_eq_true, decide_eq_true_eq] at h
  rw [isEol, Bool.or_eq_false_iff, decide_eq_false_iff_not, decide_eq_false_iff_not]
  constructor
  · rintro rfl
    exact absurd h.1 (by decide)
  · rintro rfl
    exact absurd h.1 (by decide)

variable {k v : Bytes} {out : ChangeSet}

/-- What passes the check can be written in quotes and read back. -/
theorem writable_of_plain (h : plain k (trimSpaces v) = none) : Writable (trimSpaces v) := by
  obtain ⟨hfront, hend⟩ := trimSpaces_trimmed v
  generalize trimSpaces v = w at h hfront hend
  unfold plain at h
  split at h
  · cases h
  · rename_i htext
    split at h
    · cases h
    · rename_i hplain
      rw [Bool.or_eq_true, Bool.not_eq_true', decide_eq_true_eq, not_or, Bool.not_eq_false] at htext
      obtain ⟨cs, rfl⟩ := (validString_iff w).mp htext.1
      -- an ASCII byte of the text is a character of it
      have hchar : ∀ b ∈ utf8 cs, b.toNat < 0x80 → ∃ c ∈ cs, b.toNat = c.toNat := by
        intro b hb hascii
        obtain ⟨c, hc, hbc⟩ := mem_flatMap.mp hb
        exact ⟨c, hc, toNat_of_mem_encodeRune hbc hascii⟩
      have hfree : ∀ c ∈ cs, c ≠ '"' ∧ c ≠ '\\' ∧ isControl c = false := by
        intro c hc
        have hc' := hplain
        rw [marks_utf8, any_map, Bool.not_eq_true, any_eq_false] at hc'
        have hone := hc' c hc
        simp only [Function.comp_apply, shown, Option.getD_some, Bool.or_eq_true, not_or,
          Bool.not_eq_true] at hone
        exact ⟨of_decide_eq_false hone.1.1.1.1, of_decide_eq_false hone.1.1.1.2, hone.2⟩
      refine ⟨hfront, hend, by omega, ?_, ?_, ?_⟩
      · intro hmem
        obtain ⟨c, hc, hcode⟩ := hchar _ hmem (by decide)
        exact (hfree c hc).1 (Char.toNat_inj.mp (hcode.symm.trans (by decide)))
      · intro hmem
        obtain ⟨c, hc, hcode⟩ := hchar _ hmem (by decide)
        exact (hfree c hc).2.1 (Char.toNat_inj.mp (hcode.symm.trans (by decide)))
      · intro b hb
        by_contra heol
        rw [Bool.not_eq_false, isEol, Bool.or_eq_true, decide_eq_true_eq, decide_eq_true_eq] at heol
        have hcontrol : b.toNat ≤ 0x1F := by
          rcases heol with rfl | rfl <;> decide
        obtain ⟨c, hc, hcode⟩ := hchar b hb (by omega)
        have := (hfree c hc).2.2
        rw [isControl, Bool.or_eq_false_iff, decide_eq_false_iff_not] at this
        omega

theorem accepted_setVar (hout : Accepted out)
    (hk : k ∈ changeable) (hv : Writable v) : Accepted (setVar out k v) := by
  refine ⟨?_, ?_, ?_⟩
  · rw [setVar, map_append, nodup_append]
    refine ⟨hout.nodup.sublist (filter_sublist.map _), nodup_singleton _, ?_⟩
    rintro j hj j' hj' rfl
    obtain rfl := mem_singleton.mp hj'
    obtain ⟨kv, hkv, hfst⟩ := mem_map.mp hj
    exact of_decide_eq_true (mem_filter.mp hkv).2 hfst
  · exact forall_mem_append.mpr
      ⟨fun kv hkv => hout.changeable kv (mem_of_mem_filter hkv), forall_mem_singleton.mpr hk⟩
  · exact forall_mem_append.mpr
      ⟨fun kv hkv => hout.writable kv (mem_of_mem_filter hkv), forall_mem_singleton.mpr hv⟩

theorem writable_of_visible (hlen : v.length ≤ 1024)
    (h : ∀ b ∈ v, isVisible b ∧ b ≠ ascii '"' ∧ b ≠ backslash) : Writable v where
  front := frontTrimmed_of_visible fun b hb => (h b hb).1
  ends := endTrimmed_of_visible fun b hb => (h b hb).1
  short := hlen
  noQuote hmem := (h _ hmem).2.1 rfl
  noBackslash hmem := (h _ hmem).2.2 rfl
  noEol b hb := not_isEol_of_visible (h b hb).1

theorem accepted_presets {mode : Bytes} (h : presets mode = some out) : Accepted out := by
  have hall : ∀ out ∈ [managed, proxy], (out.map Prod.fst).Nodup ∧ ∀ kv ∈ out,
      kv.1 ∈ changeable ∧ kv.2.length ≤ 1024 ∧
        (kv.2.all fun b => isVisible b ∧ b ≠ ascii '"' ∧ b ≠ backslash) := by
    decide +kernel
  have hmem : out ∈ [managed, proxy] := by
    unfold presets at h
    split at h
    · cases h
      exact mem_cons_self
    · split at h
      · cases h
        exact mem_cons_of_mem _ mem_cons_self
      · cases h
  obtain ⟨hnodup, hspec⟩ := hall out hmem
  exact ⟨hnodup, fun kv hkv => (hspec kv hkv).1, fun kv hkv =>
    writable_of_visible (hspec kv hkv).2.1 (all_iff_forall_prop.mp (hspec kv hkv).2.2)⟩

theorem changeable_of_lookup {p : Parsers} {check : Bytes → Option Bytes}
    (h : (allowed p).lookup k = some check) : k ∈ changeable := by
  have hkeys : (allowed p).map Prod.fst <+: changeable := ⟨_, rfl⟩
  exact hkeys.subset (mem_map_of_mem (Lib.mem_of_lookup h))

/-- One entry of the request. -/
theorem accepted_of_change {p : Parsers} {out' : ChangeSet} {kv : Bytes × Bytes}
    (hout : Accepted out) (h : change p out kv = .ok out') : Accepted out' := by
  unfold change at h
  dsimp only at h
  split at h
  · cases h
  · rename_i hallowed
    split at h
    · cases h
    · rename_i hplain
      split at h <;> cases h
      exact accepted_setVar hout (changeable_of_lookup hallowed) (writable_of_plain hplain)

/-- Every change accepted is of a changeable key, to a writable value. -/
theorem accepted_of_changes {p : Parsers} {req : Request} {c : ChangeSet}
    (h : changes p req = .ok c) : Accepted c := by
  obtain ⟨preset, hpreset, h⟩ := bind_eq_ok.mp h
  obtain ⟨out, hout, h⟩ := bind_eq_ok.mp h
  have hstart : Accepted preset := by
    unfold presetOf at hpreset
    split at hpreset
    · cases hpreset
      exact ⟨nodup_nil, by simp, by simp⟩
    · split at hpreset
      · cases hpreset
      · rename_i hsome
        cases hpreset
        exact accepted_presets hsome
  have hend : Accepted out :=
    foldlM_keeps Accepted (fun _ _ _ _ hs hstep => accepted_of_change hs hstep) hstart hout
  split at h <;> cases h
  exact hend

/-- What the names have in common. -/
structure Name (k : Bytes) : Prop where
  head : k.head? = some (ascii 'Z')
  zanskar : zanskarVars <+: k
  short : k.length ≤ 64
  noEquals : ascii '=' ∉ k
  visible : ∀ b ∈ k, isVisible b = true

theorem name_of_changeable (h : k ∈ changeable) : Name k := by
  have hall : ∀ k ∈ changeable, k.head? = some (ascii 'Z') ∧ zanskarVars <+: k ∧ k.length ≤ 64 ∧
      ascii '=' ∉ k ∧ k.all isVisible := by decide +kernel
  obtain ⟨hhead, hzanskar, hshort, hequals, hvisible⟩ := hall k h
  exact ⟨hhead, hzanskar, hshort, hequals, all_eq_true.mp hvisible⟩

end Zanskar.Bootedit
