import Zanskar.Gateway.Pgbouncer
import Zanskar.Target.Database

/-!
# The sidecar of a database session (`internal/gateway/dbgw/dbgw.go`, `internal/connect/database.go`)

A database session's client talks to a sidecar, and the sidecar holds the credential and connects to
the database. For PostgreSQL it is a pgbouncer, whose file `proxyArgs` writes from the target and
the credential: one entry in `[databases]`, named in front as the database is, and the settings of
`[pgbouncer]`. `connQuote` puts a backslash in front of quotes and backslashes, which is not how
pgbouncer reads them, and the name in front is not quoted at all.

- `sidecar_reaches_its_target` : for every target that was accepted, the credentials with which the
  file says what is meant;
- `credential_redirects_sidecar` : a user name that sends the sidecar to another host.
-/

namespace Zanskar.Dbgw

open Go Lib Pgbouncer List

/-! ## The sidecar's configuration -/

/-- `Spec`: what a sidecar is started from. -/
structure Spec where
  engine : String
  host : String
  port : Int
  database : String
  username : String
  password : String
  tlsMode : String
  tlsCA : String
  proxyImage : String

/-- `proxyImage`. -/
def Spec.image (s : Spec) : String :=
  if s.engine = "postgres" then "edoburu/pgbouncer:v1.23.1-p3"
  else if s.engine = "mysql" ∨ s.engine = "mariadb" then s.proxyImage
  else ""

def proxyPort (engine : String) : Nat := if engine = "postgres" then 6432 else 3306

def sslMode (mode : String) : String :=
  if tlsModes.contains mode then mode else "verify-full"

/-- `strconv.Itoa` of a number that is not negative. -/
def itoaText (n : Int) : String := String.ofList (Nat.toDigits 10 n.toNat)

/-- `strings.ReplaceAll` of one character. -/
def replaceAll (s : String) (old : Char) (new : String) : String :=
  String.ofList (s.toList.flatMap fun c => if c = old then new.toList else [c])

def connQuote (s : String) : String :=
  "'" ++ replaceAll (replaceAll s '\\' "\\\\") '\'' "\\'" ++ "'"

/-- The entry of the database in the file of the pgbouncer. -/
def databaseLine (s : Spec) : String :=
  s.database ++ " = host=" ++ s.host ++ " port=" ++ itoaText s.port ++
    " dbname=" ++ connQuote s.database ++ " user=" ++ connQuote s.username ++
    " password=" ++ connQuote s.password

/-- The rest of the file: the settings of the pgbouncer. -/
def settingsText (port : Nat) (sslmode : String) : String :=
  "[pgbouncer]\n" ++
    "listen_addr=0.0.0.0\n" ++
    "listen_port=" ++ itoaText port ++ "\n" ++
    "auth_type=trust\n" ++
    "auth_file=/etc/pgbouncer/userlist.txt\n" ++
    "pool_mode=session\n" ++
    "server_tls_sslmode=" ++ sslmode ++ "\n" ++
    "ignore_startup_parameters=extra_float_digits\n" ++
    "max_client_conn=50\n" ++
    (if sslmode = "verify-full" then "server_tls_ca_file=/etc/pgbouncer/ca.pem\n" else "")

/-- The file of the pgbouncer. -/
def pgbouncerINI (s : Spec) : String :=
  "[databases]\n" ++ databaseLine s ++ "\n" ++
    settingsText (proxyPort s.engine) (sslMode s.tlsMode)

/-- `mysqlrelay.Config`. -/
structure RelayConfig where
  listen : String
  user : String
  addr : String
  upstreamUser : String
  password : String
  database : String
  tls : String
  ca : String

/-- What the sidecar is given in its environment. -/
inductive ProxyConfig
  | pgbouncer (ini : String)
  | relay (config : RelayConfig)

/-- `proxyArgs`. -/
def proxyArgs (s : Spec) : Except String ProxyConfig :=
  if s.image = "" then .error ("dbgw: no proxy sidecar for engine " ++ quote s.engine)
  else if s.host = "" ∨ s.port ≤ 0 ∨ s.username = "" then
    .error "dbgw: host, port and username are required"
  else if s.engine ≠ "postgres" then
    .ok (.relay
      { listen := ":" ++ itoaText (proxyPort s.engine)
        user := s.username
        addr := joinHostPort s.host (itoaText s.port)
        upstreamUser := s.username
        password := s.password
        database := s.database
        tls := sslMode s.tlsMode
        ca := s.tlsCA })
  else .ok (.pgbouncer (pgbouncerINI s))

/-- `port` of a target, for databases. -/
def databasePort (t : DatabaseTarget) : Int :=
  match t.port with
  | some n => if n > 0 then n else engineDefaultPorts t.engine
  | none => engineDefaultPorts t.engine

/-- The database a session opens: the one the target names, or for PostgreSQL the one named after
the role. -/
def opened (t : DatabaseTarget) (username : String) : String :=
  if t.databaseName = "" ∧ t.engine = "postgres" then username else t.databaseName

/-- `database`: the sidecar of a session on the target, with the credential of the vault or the one
the user gave. -/
def databaseSpec (t : DatabaseTarget) (proxyImage username password : String) : Spec where
  engine := t.engine
  host := t.address
  port := databasePort t
  database := opened t username
  username := username
  password := password
  tlsMode := t.tlsMode
  tlsCA := t.tlsCA
  proxyImage := proxyImage

/-! ## What the file should say -/

def texts (ps : List (String × String)) : List (Text × Text) :=
  ps.map fun p => (p.1.toList, p.2.toList)

/-- The file defines one database, with these parameters, and these settings of the pgbouncer. -/
def Defines (ini : String) (params settings : List (String × String)) : Prop :=
  ∃ file name value, readFile ini.toList = some file ∧
    entriesOf "databases".toList file = [(name, value)] ∧
    readParams value = some (texts params) ∧
    entriesOf "pgbouncer".toList file = texts settings

/-- The settings of the pgbouncer. -/
def settings (sslmode : String) : List (String × String) :=
  [("listen_addr", "0.0.0.0"),
    ("listen_port", "6432"),
    ("auth_type", "trust"),
    ("auth_file", "/etc/pgbouncer/userlist.txt"),
    ("pool_mode", "session"),
    ("server_tls_sslmode", sslmode),
    ("ignore_startup_parameters", "extra_float_digits"),
    ("max_client_conn", "50")] ++
  if sslmode = "verify-full" then [("server_tls_ca_file", "/etc/pgbouncer/ca.pem")] else []

/-- A text that stays what it is in quotes, on one line. -/
def Quotable (s : String) : Prop := '\'' ∉ s.toList ∧ '\\' ∉ s.toList ∧ '\n' ∉ s.toList

/-- A text that is read as the name of an entry. -/
def Nameable (s : String) : Prop := '=' ∉ s.toList ∧ Starts s.toList

/-! ## Quoting -/

def escapeChar (c : Char) : Text :=
  if c = '\\' then ['\\', '\\'] else if c = '\'' then ['\\', '\''] else [c]

/-- What `connQuote` puts between the quotes. -/
def escape (s : Text) : Text := s.flatMap escapeChar

theorem toList_connQuote (s : String) :
    (connQuote s).toList = '\'' :: (escape s.toList ++ ['\'']) := by
  have hchar : ∀ c : Char, (if c = '\\' then "\\\\".toList else [c]).flatMap
      (fun c => if c = '\'' then "\\'".toList else [c]) = escapeChar c := by
    intro c
    by_cases hback : c = '\\'
    · subst hback
      decide
    · simp [escapeChar, hback]
  simp only [connQuote, replaceAll, String.toList_append, String.toList_ofList, flatMap_assoc,
    hchar, escape]
  rfl

variable {ps out : Params} {k v w s : Text} {t : Scan} {more : Params}

theorem escape_cons (c : Char) : escape (c :: s) = escapeChar c ++ escape s :=
  flatMap_cons

/-- Without quotes and backslashes. -/
def Plain (s : Text) : Prop := '\'' ∉ s ∧ '\\' ∉ s

theorem plain_cons {c : Char} : Plain (c :: s) ↔ c ≠ '\'' ∧ c ≠ '\\' ∧ Plain s := by
  simp only [Plain, mem_cons, not_or, ne_comm (a := c)]
  tauto

theorem escape_of_plain (h : Plain s) : escape s = s := by
  induction s with
  | nil => rfl
  | cons c s ih =>
    obtain ⟨hquote, hback, hs⟩ := plain_cons.mp h
    rw [escape_cons, ih hs, escapeChar, if_neg hback, if_neg hquote]
    rfl

/-- A value without quotes and backslashes is read as it is. -/
theorem read_quoted (h : Plain s) :
    exec Scan.step ⟨ps, .quoted k []⟩ (escape s ++ '\'' :: w) =
      exec Scan.step ⟨ps, .quote k s⟩ w := by
  rw [escape_of_plain h, Scan.exec_quoted_append h.1, nil_append]
  rfl

/-- The value being read in quotes is the next one of the result. -/
theorem value_of_result {value : Text}
    (hexec : exec Scan.step ⟨ps, .quoted k v⟩ w = some t) (hout : t.finish = some out)
    (hread : out = ps ++ (k, value) :: more) : v <+: value := by
  obtain ⟨v', more', hgrown⟩ := Scan.quoted_result hexec hout
  have hcons := append_cancel_left (hread.symm.trans hgrown)
  exact ⟨v', (Prod.mk.inj (cons.inj hcons).1).2.symm⟩

/-- A value that is read with a backslash too many stays so: the backslashes that could make up for
it are doubled themselves. -/
theorem not_lagging (n : Nat)
    (hexec : exec Scan.step ⟨ps, .quoted k (v ++ replicate (n + 1) '\\')⟩ (escape s ++ w) =
      some t) (hout : t.finish = some out) (more : Params) : out ≠ ps ++ (k, v ++ s) :: more := by
  induction s generalizing n v with
  | nil =>
    intro hread
    have hle := (value_of_result hexec hout hread).length_le
    simp at hle
  | cons c s ih =>
    intro hread
    have hc : '\\' = c := by
      have hfront := value_of_result hexec hout hread
      rw [prefix_append_right_inj, replicate_succ, cons_prefix_cons] at hfront
      exact hfront.1
    subst hc
    rw [escape_cons, append_assoc, show escapeChar '\\' = ['\\', '\\'] from rfl,
      Scan.exec_quoted_append (by decide)] at hexec
    have hlag : v ++ replicate (n + 1) '\\' ++ ['\\', '\\'] =
        v ++ ['\\'] ++ replicate (n + 1 + 1) '\\' := by
      rw [append_assoc, append_assoc]
      exact congrArg (v ++ ·) (replicate_append_replicate (m := 2))
    rw [hlag] at hexec
    exact ih (n + 1) hexec (by simpa using hread)

theorem plain_of_read (hexec : exec Scan.step ⟨ps, .quoted k v⟩ (escape s ++ w) = some t)
    (hout : t.finish = some out) (hread : out = ps ++ (k, v ++ s) :: more) : Plain s := by
  induction s generalizing v with
  | nil => exact ⟨not_mem_nil, not_mem_nil⟩
  | cons c s ih =>
    rw [escape_cons, append_assoc] at hexec
    by_cases hback : c = '\\'
    · subst hback
      rw [show escapeChar '\\' = ['\\', '\\'] from rfl, Scan.exec_quoted_append (by decide)] at hexec
      refine absurd ?_ (not_lagging 0 (v := v ++ ['\\']) (by simpa using hexec) hout more)
      simpa using hread
    · by_cases hquote : c = '\''
      · subst hquote
        rw [show escapeChar '\'' = ['\\'] ++ ['\''] from rfl, append_assoc,
          Scan.exec_quoted_append (by decide)] at hexec
        have hfront := value_of_result hexec hout hread
        rw [prefix_append_right_inj, cons_prefix_cons] at hfront
        exact absurd hfront.1 (by decide)
      · rw [show escapeChar c = [c] by simp [escapeChar, hback, hquote],
          Scan.exec_quoted_append (by simpa using Ne.symm hquote)] at hexec
        exact plain_cons.mpr ⟨hquote, hback, ih hexec (by simpa using hread)⟩

/-! ## Reading the parameters -/

/-- The keys, character by character. -/
def keyHost : Text := ['h', 'o', 's', 't']

def keyPort : Text := ['p', 'o', 'r', 't']

def keyDbname : Text := ['d', 'b', 'n', 'a', 'm', 'e']

def keyUser : Text := ['u', 's', 'e', 'r']

def keyPassword : Text := ['p', 'a', 's', 's', 'w', 'o', 'r', 'd']

/-- The text of the entry's parameters, from one of them to the end of the line. -/
def passwordText (password : Text) : Text :=
  keyPassword ++ '=' :: '\'' :: (escape password ++ ['\''])

def userText (user password : Text) : Text :=
  keyUser ++ '=' :: '\'' :: (escape user ++ '\'' :: ' ' :: passwordText password)

def dbnameText (name user password : Text) : Text :=
  keyDbname ++ '=' :: '\'' :: (escape name ++ '\'' :: ' ' :: userText user password)

def paramsText (host port name user password : Text) : Text :=
  keyHost ++ '=' :: (host ++ ' ' ::
    (keyPort ++ '=' :: (port ++ ' ' :: dbnameText name user password)))

/-- The parameters of a spec's entry, as they are written. -/
def Spec.written (s : Spec) : Text :=
  paramsText s.host.toList (itoaText s.port).toList s.database.toList s.username.toList
    s.password.toList

/-- What they should be read as. -/
def intended (host port name user password : Text) : Params :=
  [(keyHost, host), (keyPort, port), (keyDbname, name), (keyUser, user),
    (keyPassword, password)]

section Params

variable {host port name user password : Text} {more : Params} {e : Text}

theorem exec_paramsText (hhost : Scan.Word host) (hport : Scan.Word port) :
    exec Scan.step ⟨ps, .gap⟩ (paramsText host port name user password) =
      exec Scan.step ⟨ps ++ [(keyHost, host), (keyPort, port)], .gap⟩
        (dbnameText name user password) := by
  rw [paramsText, Scan.exec_gap_bare (by decide) (by decide) hhost,
    Scan.exec_gap_bare (by decide) (by decide) hport, append_assoc]
  rfl

/-- The value of a parameter in quotes, and the blank behind it. -/
theorem exec_quotedText (hk : Scan.Word k ∧ '=' ∉ k) (hs : Plain s) :
    exec Scan.step ⟨ps, .gap⟩ (k ++ '=' :: '\'' :: (escape s ++ '\'' :: ' ' :: w)) =
      exec Scan.step ⟨ps ++ [(k, s)], .gap⟩ w := by
  rw [Scan.exec_gap_quoted hk.1 hk.2, read_quoted hs]
  rfl

/-- A text in quotes that is read as it is has neither quotes nor backslashes in it. -/
theorem plain_of_quotedText (hk : Scan.Word k ∧ '=' ∉ k)
    (hexec : exec Scan.step ⟨ps, .gap⟩ (k ++ '=' :: '\'' :: (escape s ++ w)) = some t)
    (hout : t.finish = some (ps ++ (k, s) :: more)) : Plain s := by
  rw [Scan.exec_gap_quoted hk.1 hk.2] at hexec
  exact plain_of_read hexec hout rfl

/-- **Quoting.** The parameters are read as they are meant exactly when none of the texts in quotes
holds a quote or a backslash. -/
theorem readParams_paramsText (hhost : Scan.Word host) (hport : Scan.Word port) :
    readParams (paramsText host port name user password) =
        some (intended host port name user password) ↔
      Plain name ∧ Plain user ∧ Plain password := by
  have hdbname : Scan.Word keyDbname ∧ '=' ∉ keyDbname := by decide
  have husername : Scan.Word keyUser ∧ '=' ∉ keyUser := by decide
  have hsecret : Scan.Word keyPassword ∧ '=' ∉ keyPassword := by decide
  rw [readParams, exec_paramsText hhost hport]
  unfold intended dbnameText userText passwordText
  constructor
  · intro h
    obtain ⟨t, hexec, hout⟩ := Option.bind_eq_some_iff.mp h
    have hname : Plain name := plain_of_quotedText hdbname hexec hout
    rw [exec_quotedText hdbname hname] at hexec
    have huser : Plain user := plain_of_quotedText husername hexec hout
    rw [exec_quotedText husername huser] at hexec
    exact ⟨hname, huser, plain_of_quotedText hsecret hexec hout⟩
  · rintro ⟨hname, huser, hpassword⟩
    rw [exec_quotedText hdbname hname, exec_quotedText husername huser,
      Scan.exec_gap_quoted hsecret.1 hsecret.2, read_quoted hpassword]
    rfl

theorem intended_port {i : Nat} {x : Text}
    (h : (intended host port name user password)[i]? = some (keyPort, x)) : i = 1 := by
  -- the other keys are not the port's
  rcases i with _ | _ | _ | _ | _ | i <;>
    first
      | rfl
      | cases h

theorem getElem?_of_append {x : Text × Text} (h : ps ++ x :: more <+: out) :
    out[ps.length]? = some x := by
  obtain ⟨rest, rfl⟩ := h
  simp

theorem exists_escape_cons (h : s ≠ []) : ∃ c rest, escape s = c :: rest ∧ c ≠ '\'' := by
  obtain ⟨c, s, rfl⟩ := exists_cons_of_ne_nil h
  rw [escape_cons, escapeChar]
  split
  · exact ⟨'\\', _, rfl, by decide⟩
  · split
    · exact ⟨'\\', _, rfl, by decide⟩
    · rename_i hquote
      exact ⟨c, _, rfl, hquote⟩

variable (hhost : Scan.Word host) (hport : Scan.Word port)
include hhost hport

/-- A key of the name's own takes the host's parameter for its value. -/
theorem not_read_value
    (hexec : exec Scan.step ⟨ps, .value k⟩ (paramsText host port name user password) = some t) :
    t.finish ≠ some (intended host port name user password) := by
  intro hout
  have hhostkey : Scan.Word (keyHost ++ '=' :: host) := by
    refine ⟨by simp, ?_⟩
    rw [all_append, all_cons, hhost.2]
    decide
  have htext : paramsText host port name user password = (keyHost ++ '=' :: host) ++ ' ' ::
      (keyPort ++ '=' :: (port ++ ' ' :: dbnameText name user password)) := by
    simp [paramsText]
  rw [htext, Scan.exec_value_bare hhostkey, Scan.exec_gap_bare (by decide) (by decide) hport] at hexec
  have hprefix := Scan.params_result hexec hout
  have hfirst := intended_port (getElem?_of_append hprefix)
  rw [length_append, length_singleton, Nat.add_eq_right] at hfirst
  obtain rfl := eq_nil_of_length_eq_zero hfirst
  have hlen := congrArg (fun p : Text × Text => p.2.length) (cons_prefix_cons.mp hprefix).1
  simp only [length_append, length_cons] at hlen
  omega

/-- Between two parameters nothing begins with an `=`, and one more of them puts the port out of its
place. -/
theorem not_read_outside {m : Mode} (hm : ∀ k v, m ≠ .quoted k v)
    (hexec : exec Scan.step ⟨ps, m⟩ (' ' :: '=' :: ' ' :: paramsText host port name user password) =
      some t) : t.finish ≠ some (intended host port name user password) := by
  have hblank : isBlank ' ' ∧ isBlank '=' = false := by decide
  cases m with
  | gap | bare | quote => simp [Scan.exec_cons, Scan.step, hblank] at hexec
  | key k | equals k =>
    have hvalue : exec Scan.step ⟨ps, .value k⟩ (paramsText host port name user password) =
        some t := by
      simpa [Scan.exec_cons, Scan.step, hblank] using hexec
    exact not_read_value hhost hport hvalue
  | value k =>
    intro hout
    have hgap : exec Scan.step ⟨ps ++ [(k, ['='])], .gap⟩
        (paramsText host port name user password) = some t := by
      simpa [Scan.exec_cons, Scan.step, hblank] using hexec
    rw [exec_paramsText hhost hport] at hgap
    have hprefix := Scan.params_result hgap hout
    rw [show ps ++ [(k, ['='])] ++ [(keyHost, host), (keyPort, port)] =
      (ps ++ [(k, ['=']), (keyHost, host)]) ++ [(keyPort, port)] by simp] at hprefix
    have hsecond := intended_port (getElem?_of_append hprefix)
    simp at hsecond
  | quoted k v => exact absurd rfl (hm k v)

/-- The text between a quote that was left open and the next one. -/
def swallowed (host port : Text) : Text :=
  ' ' :: '=' :: ' ' :: (keyHost ++ '=' :: (host ++ ' ' :: (keyPort ++ '=' :: (port ++
    ' ' :: (keyDbname ++ ['='])))))

theorem quote_notMem_swallowed : '\'' ∉ swallowed host port := by
  have hhost' : '\'' ∉ host := fun h => (hhost.char h).2 rfl
  have hport' : '\'' ∉ port := fun h => (hport.char h).2 rfl
  have hkeys : '\'' ∉ keyHost ∧ '\'' ∉ keyPort ∧ '\'' ∉ keyDbname := by decide
  simp [swallowed, hkeys, hhost', hport']

/-- A quote left open swallows the text up to the next one; what comes then has to be a blank. -/
theorem exec_swallowed (hne : name ≠ [])
    (hexec : exec Scan.step ⟨ps, .quoted k v⟩
      (' ' :: '=' :: ' ' :: paramsText host port name user password) = some t) :
    ∃ w, exec Scan.step ⟨ps ++ [(k, v ++ swallowed host port)], .gap⟩ w = some t ∧ '\'' ∈ w := by
  have htext : ' ' :: '=' :: ' ' :: paramsText host port name user password =
      swallowed host port ++ '\'' :: (escape name ++ '\'' :: ' ' :: userText user password) := by
    simp [swallowed, paramsText, dbnameText]
  obtain ⟨c, rest, hescape, hc⟩ := exists_escape_cons hne
  rw [htext, Scan.exec_quoted_append (quote_notMem_swallowed hhost hport), hescape] at hexec
  by_cases hblank : isBlank c
  · refine ⟨rest ++ '\'' :: ' ' :: userText user password, ?_, by simp⟩
    simpa [Scan.exec_cons, Scan.step, hc, hblank] using hexec
  · simp [Scan.exec_cons, Scan.step, hc, hblank] at hexec

/-- A quote left open in the name makes a value that is none of the five. -/
theorem not_read_quoted
    (hname : e.count '\'' ≤ name.count '\'') (hne : name ≠ []) (hown : '\'' ∉ name ∨ name = user)
    (hfront : exec Scan.step ⟨[], .gap⟩ e = some ⟨ps, .quoted k v⟩)
    (hexec : exec Scan.step ⟨ps, .quoted k v⟩
      (' ' :: '=' :: ' ' :: paramsText host port name user password) = some t) :
    t.finish ≠ some (intended host port name user password) := by
  intro hout
  obtain ⟨w, hgap, hquote⟩ := exec_swallowed hhost hport hne hexec
  have hcount := Scan.quoted_count hfront
  have hword : ∀ {x : Text}, Scan.Word x → x ≠ v ++ swallowed host port := by
    rintro x hx rfl
    have hblank : ' ' ∈ v ++ swallowed host port := by simp [swallowed]
    exact absurd (hx.char hblank).1 (by decide)
  -- the name would hold the quotes of the value, and was seen to hold more than twice as many
  have hshort : name ≠ v ++ swallowed host port := by
    intro heq
    have hswallowed := count_eq_zero_of_not_mem (quote_notMem_swallowed hhost hport)
    rw [heq, count_append, hswallowed] at hname
    omega
  have hown : name = user := hown.resolve_left fun hquote => by
    rw [count_eq_zero_of_not_mem hquote] at hname
    omega
  subst hown
  have hprefix := Scan.params_result hgap hout
  have hplace := getElem?_of_append hprefix
  generalize hn : ps.length = n at hplace
  match n, hplace with
  | 0, h => exact hword hhost (Prod.mk.inj (Option.some.inj h)).2
  | 1, h => exact hword hport (Prod.mk.inj (Option.some.inj h)).2
  | 2, h => exact hshort (Prod.mk.inj (Option.some.inj h)).2
  | 3, h => exact hshort (Prod.mk.inj (Option.some.inj h)).2
  | 4, h =>
    have hall := hprefix.eq_of_length (by simp [hn, intended])
    rw [← hall] at hout
    exact absurd (Scan.isBlank_of_result hgap hout _ hquote) (by decide)
  | n + 5, h => cases h

/-- **Names.** With an `=` in its name the entry is not read as it is meant, whatever else the name
holds. -/
theorem not_read_equals {d : Text}
    (hname : name = d ++ '=' :: e) (hown : '\'' ∉ name ∨ name = user) :
    readParams (e ++ ' ' :: '=' :: ' ' :: paramsText host port name user password) ≠
      some (intended host port name user password) := by
  intro h
  obtain ⟨t, hexec, hout⟩ := Option.bind_eq_some_iff.mp h
  rw [exec_append] at hexec
  obtain ⟨⟨ps, m⟩, hfront, hrest⟩ := Option.bind_eq_some_iff.mp hexec
  by_cases hm : ∀ k v, m ≠ .quoted k v
  · exact not_read_outside hhost hport hm hrest hout
  · push Not at hm
    obtain ⟨k, v, rfl⟩ := hm
    have hcount : e.count '\'' ≤ name.count '\'' := by
      rw [hname, count_append, count_cons]
      omega
    exact not_read_quoted hhost hport hcount (by simp [hname]) hown hfront hrest hout

end Params

/-! ## Reading the file -/

theorem sslMode_mem (mode : String) : sslMode mode ∈ tlsModes := by
  unfold sslMode
  split
  · rename_i h
    exact contains_iff_mem.mp h
  · decide

/-- The settings of a file. -/
def settingsRead (sslmode : String) : List Setting :=
  (texts (settings sslmode)).map fun p => ⟨"pgbouncer".toList, p.1, p.2⟩

variable {sslmode : String} {params : List (String × String)} {ini : String}

theorem isEntry_settings (h : sslmode ∈ tlsModes) : ∀ e ∈ texts (settings sslmode), IsEntry e := by
  simp only [tlsModes, mem_cons, not_mem_nil, or_false] at h
  rcases h with rfl | rfl | rfl | rfl <;> decide +kernel

theorem toList_settingsText : (settingsText 6432 sslmode).toList =
    "[pgbouncer]".toList ++ '\n' :: (texts (settings sslmode)).flatMap fun e =>
      e.1 ++ '=' :: (e.2 ++ ['\n']) := by
  have hport : itoaText (6432 : Nat) = "6432" := by decide +kernel
  have hchars : "=".toList = ['='] ∧ "\n".toList = ['\n'] := by decide
  -- the literals, with the `=` and the line feed on their own
  have hheader : "[pgbouncer]\n" = "[pgbouncer]" ++ "\n" := by decide +kernel
  have hlines :
      "listen_addr=0.0.0.0\n" = "listen_addr" ++ "=" ++ "0.0.0.0" ++ "\n" ∧
      "listen_port=" = "listen_port" ++ "=" ∧
      "auth_type=trust\n" = "auth_type" ++ "=" ++ "trust" ++ "\n" ∧
      "auth_file=/etc/pgbouncer/userlist.txt\n" =
        "auth_file" ++ "=" ++ "/etc/pgbouncer/userlist.txt" ++ "\n" ∧
      "pool_mode=session\n" = "pool_mode" ++ "=" ++ "session" ++ "\n" ∧
      "server_tls_sslmode=" = "server_tls_sslmode" ++ "=" ∧
      "ignore_startup_parameters=extra_float_digits\n" =
        "ignore_startup_parameters" ++ "=" ++ "extra_float_digits" ++ "\n" ∧
      "max_client_conn=50\n" = "max_client_conn" ++ "=" ++ "50" ++ "\n" ∧
      "server_tls_ca_file=/etc/pgbouncer/ca.pem\n" =
        "server_tls_ca_file" ++ "=" ++ "/etc/pgbouncer/ca.pem" ++ "\n" := by
    decide +kernel
  unfold settingsText settings texts
  rw [hport, hheader]
  simp only [hlines]
  split <;>
    simp only [String.toList_append, hchars, map_cons, map_nil, cons_append,
      nil_append, append_nil, append_assoc, flatMap_cons, flatMap_nil,
      String.toList_empty]

/-- The settings are read as they are, in every mode. -/
theorem readLines_settingsText (header : Text) (h : sslmode ∈ tlsModes) :
    readLines header ((settingsText 6432 sslmode).toList.splitOn '\n') =
      some (settingsRead sslmode) := by
  have hheader : readLine "[pgbouncer]".toList = some (.header "pgbouncer".toList) := by decide
  rw [toList_settingsText, splitOn_append_cons_self_of_not_mem (by decide), readLines, hheader]
  exact readLines_entries _ (isEntry_settings h)

theorem entriesOf_settingsRead :
    entriesOf "databases".toList (settingsRead sslmode) = [] ∧
      entriesOf "pgbouncer".toList (settingsRead sslmode) = texts (settings sslmode) := by
  have hne : "pgbouncer".toList ≠ "databases".toList := by decide
  unfold settingsRead
  generalize "pgbouncer".toList = pgbouncer, "databases".toList = databases at hne ⊢
  simp [entriesOf, filter_map, Function.comp_def, hne]

theorem toList_databaseLine (s : Spec) :
    (databaseLine s).toList = s.database.toList ++ ' ' :: '=' :: ' ' :: s.written := by
  have hhost : " = host=".toList = ' ' :: '=' :: ' ' :: (keyHost ++ ['=']) := by decide
  have hport : " port=".toList = ' ' :: (keyPort ++ ['=']) := by decide
  have hdbname : " dbname=".toList = ' ' :: (keyDbname ++ ['=']) := by decide
  have huser : " user=".toList = ' ' :: (keyUser ++ ['=']) := by decide
  have hpassword : " password=".toList = ' ' :: (keyPassword ++ ['=']) := by decide
  rw [databaseLine, Spec.written]
  generalize itoaText s.port = port
  simp only [String.toList_append, toList_connQuote]
  rw [hhost, hport, hdbname, huser, hpassword]
  unfold paramsText dbnameText userText passwordText
  simp

theorem readFile_pgbouncerINI {s : Spec} (hengine : s.engine = "postgres")
    (hline : '\n' ∉ (databaseLine s).toList) :
    readFile (pgbouncerINI s).toList = readLines "databases".toList ((databaseLine s).toList ::
      (settingsText 6432 (sslMode s.tlsMode)).toList.splitOn '\n') := by
  have hheader : readLine "[databases]".toList = some (.header "databases".toList) := by
    decide +kernel
  have htext : (pgbouncerINI s).toList = "[databases]".toList ++ '\n' ::
      ((databaseLine s).toList ++ '\n' :: (settingsText 6432 (sslMode s.tlsMode)).toList) := by
    have hport : proxyPort s.engine = 6432 := by rw [hengine]; rfl
    rw [pgbouncerINI, hport]
    simp [String.toList_append]
  rw [readFile, htext, splitOn_append_cons_self_of_not_mem (by decide),
    splitOn_append_cons_self_of_not_mem hline, readLines, hheader]

/-- A file whose entry keeps to its line is read by what stands before and behind the first `=`
there. -/
theorem defines_iff {s : Spec} {name rest : Text}
    (hengine : s.engine = "postgres") (hline : '\n' ∉ (databaseLine s).toList)
    (hsplit : (databaseLine s).toList = name ++ '=' :: rest) (hname : '=' ∉ name)
    (hend : rest.getLast? = some '\'') :
    Defines (pgbouncerINI s) params (settings (sslMode s.tlsMode)) ↔
      Starts name ∧ readParams rest = some (texts params) := by
  obtain ⟨value, rfl⟩ := getLast?_eq_some_iff.mp hend
  have hread : ∀ l, readLine (name ++ '=' :: (value ++ ['\''])) = some l ↔
      Starts name ∧ l = .entry (trim name) (trim (value ++ ['\''])) := fun l =>
    readLine_equals hname (by decide) (by decide)
  have htrim : readParams (trim (value ++ ['\''])) = readParams (value ++ ['\'']) :=
    readParams_trim (by decide)
  obtain ⟨hnone, hall⟩ := entriesOf_settingsRead
  have hfile : ∀ l, readLine (databaseLine s).toList = some (.entry (trim name) l) →
      readFile (pgbouncerINI s).toList =
        some (⟨"databases".toList, trim name, l⟩ :: settingsRead (sslMode s.tlsMode)) := by
    intro l hl
    rw [readFile_pgbouncerINI hengine hline, readLines, hl, readLines_settingsText _ (sslMode_mem _)]
    rfl
  rw [hsplit] at hfile
  constructor
  · rintro ⟨file, key, v, hread', hone, hparams, -⟩
    cases hl : readLine (databaseLine s).toList with
    | none =>
      rw [readFile_pgbouncerINI hengine hline, readLines, hl] at hread'
      cases hread'
    | some l =>
      rw [hsplit] at hl
      obtain ⟨hstarts, rfl⟩ := (hread l).mp hl
      cases hread'.symm.trans (hfile _ hl)
      refine ⟨hstarts, ?_⟩
      rw [entriesOf, filter_cons_of_pos (by simp), map_cons, cons.injEq] at hone
      rw [← htrim, ← hparams, ← (Prod.mk.inj hone.1).2]
  · rintro ⟨hstarts, hparams⟩
    have hl := (hread _).mpr ⟨hstarts, rfl⟩
    refine ⟨_, trim name, trim (value ++ ['\'']), hfile _ hl, ?_, htrim.trans hparams, ?_⟩
    · rw [entriesOf, filter_cons_of_pos (by simp), map_cons]
      exact congrArg _ hnone
    · rw [entriesOf, filter_cons_of_neg (by simp)]
      exact hall

theorem starts_append_blank (name : Text) : Starts (name ++ [' ']) ↔ Starts name := by
  have hblank : isBlank ' ' := by decide
  rw [Starts, Starts, dropWhile_append]
  cases name.dropWhile isBlank <;> simp [hblank]

theorem getLast?_paramsText (host port name user password : Text) :
    (paramsText host port name user password).getLast? = some '\'' := by
  simp [paramsText, dbnameText, userText, passwordText, getLast?_append, getLast?_cons]

theorem lineFeed_notMem_escape (h : '\n' ∉ s) : '\n' ∉ escape s := by
  rw [escape, mem_flatMap]
  rintro ⟨c, hc, hmem⟩
  unfold escapeChar at hmem
  split_ifs at hmem
  · exact absurd hmem (by decide)
  · exact absurd hmem (by decide)
  · exact h (mem_singleton.mp hmem ▸ hc)

theorem lineFeed_notMem_paramsText {host port name user password : Text} (hhost : Scan.Word host)
    (hport : Scan.Word port) (hname : '\n' ∉ name) (huser : '\n' ∉ user)
    (hpassword : '\n' ∉ password) : '\n' ∉ paramsText host port name user password := by
  have hkeys : '\n' ∉ keyHost ∧ '\n' ∉ keyPort ∧ '\n' ∉ keyDbname ∧
      '\n' ∉ keyUser ∧ '\n' ∉ keyPassword := by
    decide
  unfold paramsText dbnameText userText passwordText
  simp [hkeys, hhost.lineFeed_notMem, hport.lineFeed_notMem, lineFeed_notMem_escape hname,
    lineFeed_notMem_escape huser, lineFeed_notMem_escape hpassword]

theorem lineFeed_notMem_of_defines {settings : List (String × String)}
    (h : Defines ini params settings) : ∀ p ∈ params, '\n' ∉ p.2.toList := by
  obtain ⟨file, name, value, hread, hone, hparams, -⟩ := h
  have hentry : (name, value) ∈ entriesOf "databases".toList file := hone ▸ mem_cons_self
  obtain ⟨e, he, heq⟩ := mem_map.mp hentry
  have hvalue := lineFeed_notMem_of_readFile hread (mem_filter.mp he).1
  rw [(Prod.mk.inj heq).2] at hvalue
  intro p hp hmem
  exact hvalue (subset_of_readParams hparams _ (mem_map_of_mem hp) hmem)

/-- The entry of a spec, as it is meant. -/
def meant (s : Spec) : List (String × String) :=
  [("host", s.host), ("port", itoaText s.port), ("dbname", s.database), ("user", s.username),
    ("password", s.password)]

theorem texts_meant (s : Spec) : texts (meant s) = intended s.host.toList (itoaText s.port).toList
    s.database.toList s.username.toList s.password.toList := by
  have hkeys : "host".toList = keyHost ∧ "port".toList = keyPort ∧ "dbname".toList = keyDbname ∧
      "user".toList = keyUser ∧ "password".toList = keyPassword := by
    decide
  simp [texts, meant, intended, hkeys]

theorem readParams_blank : readParams (' ' :: w) = readParams w := by
  have hblank : isBlank ' ' := by decide
  simp [readParams, Scan.exec_cons, Scan.step, hblank]

/-- **The file.** It says what is meant exactly when the texts in quotes hold no quote, no backslash
and no line feed, and the database's name is read as the name of an entry. -/
theorem defines_pgbouncerINI_iff {s : Spec} (hengine : s.engine = "postgres")
    (hhost : Scan.Word s.host.toList) (hport : Scan.Word (itoaText s.port).toList)
    (hown : '\'' ∉ s.database.toList ∨ s.database = s.username) :
    Defines (pgbouncerINI s) (meant s) (settings (sslMode s.tlsMode)) ↔
      Quotable s.database ∧ Quotable s.username ∧ Quotable s.password ∧ Nameable s.database := by
  have hend : s.written.getLast? = some '\'' := getLast?_paramsText _ _ _ _ _
  have hline : '\n' ∉ s.database.toList → '\n' ∉ s.username.toList → '\n' ∉ s.password.toList →
      '\n' ∉ (databaseLine s).toList := by
    intro hname huser hpassword
    rw [toList_databaseLine, Spec.written]
    simp [hname, lineFeed_notMem_paramsText hhost hport hname huser hpassword]
  -- the line around its first `=`, when that is not the name's own
  have hsplit : (databaseLine s).toList =
      (s.database.toList ++ [' ']) ++ '=' :: ' ' :: s.written := by
    rw [toList_databaseLine]
    simp
  have hiff : '=' ∉ s.database.toList → '\n' ∉ (databaseLine s).toList →
      (Defines (pgbouncerINI s) (meant s) (settings (sslMode s.tlsMode)) ↔
        Starts s.database.toList ∧ Plain s.database.toList ∧ Plain s.username.toList ∧
          Plain s.password.toList) := by
    intro hequals hline
    rw [defines_iff hengine hline hsplit (by simpa using hequals)
        (by simp [getLast?_cons, hend]),
      starts_append_blank, readParams_blank, texts_meant, Spec.written,
      readParams_paramsText hhost hport]
  constructor
  · intro h
    have hfeed := lineFeed_notMem_of_defines h
    have hname : '\n' ∉ s.database.toList := hfeed ("dbname", _) (by simp [meant])
    have huser : '\n' ∉ s.username.toList := hfeed ("user", _) (by simp [meant])
    have hpassword : '\n' ∉ s.password.toList := hfeed ("password", _) (by simp [meant])
    have hline := hline hname huser hpassword
    have hequals : '=' ∉ s.database.toList := by
      intro hmem
      -- the name of the entry would end at the name's own `=`
      obtain ⟨d, e, hd, hnot⟩ := eq_append_cons_of_mem hmem
      have hsplit : (databaseLine s).toList =
          d ++ '=' :: (e ++ ' ' :: '=' :: ' ' :: s.written) := by
        rw [toList_databaseLine, hd]
        simp
      have hmisread := ((defines_iff hengine hline hsplit hnot
        (by simp [getLast?_append, getLast?_cons, hend])).mp h).2
      rw [texts_meant] at hmisread
      exact not_read_equals hhost hport hd (hown.imp_right (congrArg String.toList)) hmisread
    obtain ⟨hstarts, hplain, hplain', hplain''⟩ := (hiff hequals hline).mp h
    exact ⟨⟨hplain.1, hplain.2, hname⟩, ⟨hplain'.1, hplain'.2, huser⟩,
      ⟨hplain''.1, hplain''.2, hpassword⟩, hequals, hstarts⟩
  · rintro ⟨⟨hquote, hback, hname⟩, ⟨hquote', hback', huser⟩, ⟨hquote'', hback'', hpassword⟩,
      hequals, hstarts⟩
    exact (hiff hequals (hline hname huser hpassword)).mpr
      ⟨hstarts, ⟨hquote, hback⟩, ⟨hquote', hback'⟩, ⟨hquote'', hback''⟩⟩

/-! ## The session's sidecar -/

theorem wordChar_of_le {c : Char} (h : 0x2D ≤ c.toNat) : (!isBlank c && c ≠ '\'') := by
  have hne : ∀ d : Char, d.toNat < 0x2D → c ≠ d := by
    rintro d hd rfl
    omega
  have hrange : ¬ c.toNat ≤ 0x0D := by omega
  simp [isBlank, inRange, hne ' ' (by decide), hne '\'' (by decide), hrange]

theorem word_of_validAddress {address : String} (h : validAddress address) :
    Scan.Word address.toList := by
  refine ⟨by simpa using ne_empty_of_validAddress h, all_eq_true.mpr fun c hc => ?_⟩
  refine wordChar_of_le ?_
  have hhost := isHostChar_of_validAddress h c hc
  simp only [isHostChar, isLabelEnd, inRange, Bool.or_eq_true, Bool.and_eq_true,
    decide_eq_true_eq] at hhost
  rcases hhost with ((halnum | rfl) | rfl) | rfl
  · omega
  all_goals decide

theorem word_itoaText (n : Int) : Scan.Word (itoaText n).toList := by
  rw [itoaText, String.toList_ofList]
  refine ⟨Nat.toDigits_ne_nil, all_eq_true.mpr fun c hc => wordChar_of_le ?_⟩
  have hdigit := Nat.isDigit_of_mem_toDigits (by decide) (by decide) hc
  rw [Char.isDigit, Bool.and_eq_true, decide_eq_true_eq, decide_eq_true_eq] at hdigit
  have hlo : 48 ≤ c.toNat := hdigit.1
  omega

theorem databasePort_pos {t : DatabaseTarget} (hengine : t.engine = "postgres") :
    0 < databasePort t := by
  have hdefault : 0 < engineDefaultPorts t.engine := by rw [hengine]; decide
  unfold databasePort
  split
  · split
    · assumption
    · exact hdefault
  · exact hdefault

theorem proxyArgs_postgres {s : Spec} (hengine : s.engine = "postgres") (hhost : s.host ≠ "")
    (hport : 0 < s.port) (husername : s.username ≠ "") :
    proxyArgs s = .ok (.pgbouncer (pgbouncerINI s)) := by
  have himage : s.image ≠ "" := by
    rw [Spec.image, if_pos hengine]
    decide
  rw [proxyArgs, if_neg himage, if_neg (by simp [hhost, husername, hport]),
    if_neg (by simp [hengine])]

theorem quotable_databaseName {t : DatabaseTarget} (h : t.Valid) : Quotable t.databaseName := by
  have hnot : ∀ c ∈ " \t\n\r'\"`;\\/".toList, c ∉ t.databaseName.toList := by
    intro c hc hmem
    have hany : containsAny t.databaseName " \t\n\r'\"`;\\/" :=
      any_eq_true.mpr ⟨c, hmem, contains_iff_mem.mpr hc⟩
    exact absurd (h.name_plain.symm.trans hany) (by decide)
  exact ⟨hnot _ (by decide), hnot _ (by decide), hnot _ (by decide)⟩

/-- **The sidecar of a target.** For every PostgreSQL target that was accepted and every credential,
the file defines one database, at the target's host and port and with the credential's user and
password, and sets what is listed and nothing else, exactly when user name and password hold no
quote, no backslash and no line feed, and the name in front of the entry, the target's database or
the user name, holds no `=`, is not blank and does not begin with a bracket. -/
theorem sidecar_reaches_its_target {certs : String → Bool} {t v : DatabaseTarget}
    (hvalid : t.validate certs = .ok v) (hengine : v.engine = "postgres") {username : String}
    (husername : username ≠ "") (proxyImage password : String) :
    ∃ ini, proxyArgs (databaseSpec v proxyImage username password) = .ok (.pgbouncer ini) ∧
      (Defines ini
          [("host", v.address), ("port", itoaText (databasePort v)), ("dbname", opened v username),
            ("user", username), ("password", password)]
          (settings (sslMode v.tlsMode)) ↔
        Quotable username ∧ Quotable password ∧ Nameable (opened v username)) := by
  have hv := DatabaseTarget.validate_spec hvalid
  have hname : opened v username = username ∨ Quotable (opened v username) := by
    unfold opened
    split
    · exact .inl rfl
    · exact .inr (quotable_databaseName hv)
  have hiff := defines_pgbouncerINI_iff (s := databaseSpec v proxyImage username password) hengine
    (word_of_validAddress hv.address) (word_itoaText _)
    (hname.elim .inr fun hquotable => .inl hquotable.1)
  refine ⟨_, proxyArgs_postgres hengine (ne_empty_of_validAddress hv.address)
    (databasePort_pos hengine) husername, hiff.trans ?_⟩
  constructor
  · rintro ⟨-, huser, hpassword, hnameable⟩
    exact ⟨huser, hpassword, hnameable⟩
  · rintro ⟨huser, hpassword, hnameable⟩
    refine ⟨?_, huser, hpassword, hnameable⟩
    rcases hname with hown | hquotable
    · exact (congrArg Quotable hown).mpr huser
    · exact hquotable

/-- A target that names no database. -/
def unnamedTarget : DatabaseTarget where
  address := "db.example"
  engine := "postgres"
  databaseName := ""
  tlsMode := "require"
  tlsCA := ""
  port := none

theorem sidecar_reaches_its_target_plainly :
    ∃ ini, proxyArgs (databaseSpec unnamedTarget "" "alice" "s3cret = pw") = .ok (.pgbouncer ini) ∧
      Defines ini
        [("host", "db.example"), ("port", "5432"), ("dbname", "alice"), ("user", "alice"),
          ("password", "s3cret = pw")]
        (settings "require") := by
  obtain ⟨ini, hini, hiff⟩ := @sidecar_reaches_its_target (fun _ => false) unnamedTarget unnamedTarget
    (by decide +kernel) rfl "alice" (by decide) "" "s3cret = pw"
  refine ⟨ini, hini, hiff.mpr ?_⟩
  unfold Quotable Nameable
  decide

theorem Defines.params_eq {params' settings settings' : List (String × String)}
    (h : Defines ini params settings) (h' : Defines ini params' settings') :
    texts params = texts params' := by
  obtain ⟨file, name, value, hread, hone, hparams, -⟩ := h
  obtain ⟨file', name', value', hread', hone', hparams', -⟩ := h'
  cases hread.symm.trans hread'
  obtain ⟨-, rfl⟩ := Prod.mk.inj (cons.inj (hone.symm.trans hone')).1
  exact Option.some.inj (hparams.symm.trans hparams')

/-- A user name that is an entry of its own. -/
def entryName : String := "a=host=evil timezone"

theorem defines_entryName :
    Defines (pgbouncerINI (databaseSpec unnamedTarget "" entryName "pw"))
      [("host", "evil"), ("timezone", "host=db.example"), ("port", "5432"), ("dbname", entryName),
        ("user", entryName), ("password", "pw")]
      (settings "require") := by
  have hsplit : (databaseLine (databaseSpec unnamedTarget "" entryName "pw")).toList =
      ['a'] ++ '=' :: ("host=evil timezone".toList ++ ' ' :: '=' :: ' ' ::
        paramsText "db.example".toList ['5', '4', '3', '2'] entryName.toList entryName.toList
          ['p', 'w']) := by
    rw [toList_databaseLine]
    decide +kernel
  refine (defines_iff rfl (by rw [hsplit]; decide +kernel) hsplit (by decide) (by decide +kernel)).mpr
    ⟨by decide, by decide +kernel⟩

/-- A user name with a host of its own in it sends the sidecar there; and with a backslash in the
password the file does not say what is meant. -/
theorem credential_redirects_sidecar :
    unnamedTarget.validate (fun _ => false) = .ok unnamedTarget ∧
      (∃ ini, proxyArgs (databaseSpec unnamedTarget "" entryName "pw") = .ok (.pgbouncer ini) ∧
        Defines ini
          [("host", "evil"), ("timezone", "host=db.example"), ("port", "5432"),
            ("dbname", entryName), ("user", entryName), ("password", "pw")]
          (settings "require") ∧
        ¬ Defines ini
          [("host", "db.example"), ("port", "5432"), ("dbname", entryName), ("user", entryName),
            ("password", "pw")]
          (settings "require")) ∧
      ∃ ini, proxyArgs (databaseSpec unnamedTarget "" "alice" "a\\b") = .ok (.pgbouncer ini) ∧
        ¬ Defines ini
          [("host", "db.example"), ("port", "5432"), ("dbname", "alice"), ("user", "alice"),
            ("password", "a\\b")]
          (settings "require") := by
  have hport : 0 < databasePort unnamedTarget := by decide
  refine ⟨by decide +kernel,
    ⟨_, proxyArgs_postgres rfl (by decide) hport (by decide), defines_entryName, ?entry⟩,
    ⟨_, proxyArgs_postgres rfl (by decide) hport (by decide), ?backslash⟩⟩
  case entry =>
    intro hmeant
    exact absurd (defines_entryName.params_eq hmeant) (by decide)
  case backslash =>
    intro hmeant
    have hiff := defines_pgbouncerINI_iff (s := databaseSpec unnamedTarget "" "alice" "a\\b") rfl
      (by decide) (by decide +kernel) (.inr rfl)
    exact absurd (hiff.mp hmeant).2.2.1.2.1 (by decide)

end Zanskar.Dbgw
