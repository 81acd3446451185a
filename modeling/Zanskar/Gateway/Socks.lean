import Zanskar.Gateway.Apprelay
import Zanskar.Go.Io
import Zanskar.Go.Strconv
import Zanskar.Lib.Check
import Zanskar.Lib.Table

/-!
# The application relay's SOCKS listener (`internal/gateway/apprelay/socks.go`)

An application held to its origins is behind a SOCKS5 listener. A client sends a greeting and a
request; the relay dials the address the gateway pinned for the route the request names, or nothing.

A client is what its reads hand over before the deadline, split in any way. `Hello` and `Connect`
are the messages as the protocol has them, with their counts as fields, and the table of routes is
one that `validRoutes` passed.

- `socks_dials_what_is_asked` : a client has the pin of a route dialled just when it asks for it.
-/

namespace Zanskar.Apprelay

open Go Lib List

/-! ## The routes -/

/-- The checks of `validRoutes` on the address of the route at a position. -/
def validPin (names : Names) (r : Route) (i : Nat) : Except String Unit :=
  match splitHostPort r.pinned with
  | none => .error ("route " ++ toString i ++ ": to must be ip:port, never a name")
  | some (ip, port) => do
    require (names.parseIP ip).isSome ("route " ++ toString i ++ ": to must be ip:port, never a name")
    require ((atoi (utf8 port.toList)).any fun n => 1 ≤ n && n ≤ 65535)
      ("route " ++ toString i ++ ": to has no valid port")

/-- `validRoutes`. -/
def validRoutes (names : Names) (allow : List Route) : Except String Unit := do
  require (!allow.isEmpty) "allows nothing"
  eachOnce (fun (r, _) => destOf names r.host r.port)
    (fun (r, i) => require (normHost names r.host ≠ "" && 1 ≤ r.port && r.port ≤ 65535)
      ("route " ++ toString i ++ ": host and a port 1-65535 are required"))
    (fun (r, i) => validPin names r i)
    (fun (r, i) => "route " ++ toString i ++ " repeats " ++ destOf names r.host r.port)
    [] allow.zipIdx

/-- `SOCKS`: the origins of a session. -/
structure Socks where
  names : Names
  allow : List Route
  valid : validRoutes names allow = .ok ()

def Socks.routes (s : Socks) : String → Option String := routesOf s.names s.allow

/-- A table that was passed names no destination twice. -/
def Socks.table (s : Socks) : Table fun r : Route => destOf s.names r.host r.port where
  rows := s.allow.reverse
  nodup := by
    have hkeys := (eachOnce_eq_ok.mp (then_eq_ok.mp s.valid).2).2
    rw [map_reverse, nodup_reverse]
    rwa [← zipIdx_map_fst 0 s.allow, map_map]

/-- The pin under a name is the one of the route with that name. -/
theorem Socks.routes_eq_some (s : Socks) {dest address : String} : s.routes dest = some address ↔
    ∃ r ∈ s.allow, r.pinned = address ∧ destOf s.names r.host r.port = dest := by
  have hget : s.routes dest = (s.table.get dest).map Route.pinned := rfl
  rw [hget, Option.map_eq_some_iff]
  refine exists_congr fun r => ?_
  rw [Table.get_eq_some, Socks.table, mem_reverse]
  tauto

/-! ## The handshake -/

def socksVersion : UInt8 := 5
def socksNoAuth : UInt8 := 0
def socksConnect : UInt8 := 1
def atypIPv4 : UInt8 := 1
def atypDomain : UInt8 := 3
def atypIPv6 : UInt8 := 4

/-- What a client is told last: nothing, that none of its methods is taken, or a reply. -/
inductive Told where
  | nothing
  | noMethods
  | reply (code : UInt8)
  deriving DecidableEq

/-- `io.ReadFull` from a client, which is dropped where its stream ends before. -/
def read (n : Nat) (src : List Bytes) : Except Told (Bytes × List Bytes) :=
  match readFull n src with
  | none => .error .nothing
  | some next => .ok next

/-- The characters of a name as `normHost` has them: U+FFFD for a byte that is no UTF-8. -/
def nameText (name : Bytes) : String := String.ofList ((marks name).map shown)

/-- The host of a request, by its type of address. -/
def readHost (names : Names) (kind : UInt8) (src : List Bytes) : Except Told (String × List Bytes) :=
  if kind = atypIPv4 ∨ kind = atypIPv6 then do
    let (ip, src) ← read (if kind = atypIPv6 then 16 else 4) src
    .ok (names.ipString ip, src)
  else if kind = atypDomain then do
    let (n, src) ← read 1 src
    let (name, src) ← read (byteAt n 0).toNat src
    .ok (nameText name, src)
  else .error (.reply 8)

/-- `socksRequest`; `written` is whether the answer to the greeting could be written. -/
def socksRequest (names : Names) (written : Bool) (src : List Bytes) : Except Told String := do
  let (hdr, src) ← read 2 src
  require (byteAt hdr 0 = socksVersion) .nothing
  let (methods, src) ← read (byteAt hdr 1).toNat src
  require (written && socksNoAuth ∈ methods) (if written then .noMethods else .nothing)
  let (req, src) ← read 4 src
  require (byteAt req 0 = socksVersion) .nothing
  let (host, src) ← readHost names (byteAt req 3) src
  let (port, _) ← read 2 src
  require (byteAt req 1 = socksConnect) (.reply 7)
  .ok (destOf names host ((byteAt port 0).toNat * 256 + (byteAt port 1).toNat))

/-- What `r.Dial` ends with. -/
inductive Outcome where
  | connected
  | refused
  | unreachable

/-- How a client was served: the address that was dialled for it, and what it was told. -/
structure Served where
  dialled : Option String
  told : Told

/-- `socksConn`, up to the copying. -/
def Socks.socksConn (s : Socks) (written : Bool) (dial : Outcome) (src : List Bytes) : Served :=
  match socksRequest s.names written src with
  | .error told => ⟨none, told⟩
  | .ok dest =>
    match s.routes dest with
    | none => ⟨none, .reply 2⟩
    | some address =>
      ⟨some address, .reply (match dial with
        | .connected => 0
        | .refused => 5
        | .unreachable => 4)⟩

/-! ## The messages -/

/-- A greeting that offers to go without authentication. -/
structure Hello where
  count : UInt8
  methods : Bytes
  counted : methods.length = count.toNat
  noAuth : socksNoAuth ∈ methods

def Hello.bytes (h : Hello) : Bytes := [socksVersion, h.count] ++ h.methods

/-- The address of a request. -/
inductive Address where
  | ipv4 (ip : IP) (h : ip.length = 4)
  | ipv6 (ip : IP) (h : ip.length = 16)
  | domain (count : UInt8) (name : Bytes) (counted : name.length = count.toNat)

def Address.kind : Address → UInt8
  | .ipv4 _ _ => atypIPv4
  | .ipv6 _ _ => atypIPv6
  | .domain _ _ _ => atypDomain

def Address.bytes : Address → Bytes
  | .ipv4 ip _ | .ipv6 ip _ => ip
  | .domain count name _ => [count] ++ name

/-- The host an address names. -/
def Address.host (names : Names) : Address → String
  | .ipv4 ip _ | .ipv6 ip _ => names.ipString ip
  | .domain _ name _ => nameText name

/-- A request to connect; the reserved byte is any. -/
structure Connect where
  reserved : UInt8
  address : Address
  portHigh : UInt8
  portLow : UInt8

def Connect.bytes (c : Connect) : Bytes :=
  [socksVersion, socksConnect, c.reserved, c.address.kind] ++ c.address.bytes ++
    [c.portHigh, c.portLow]

def Connect.port (c : Connect) : Nat := c.portHigh.toNat * 256 + c.portLow.toNat

/-! ## Reading them -/

variable {names : Names} {written : Bool} {src rest : List Bytes} {d tail : Bytes} {n : Nat}

theorem of_read (h : read n src = .ok (d, rest)) :
    d.length = n ∧ src.flatten = d ++ rest.flatten := by
  unfold read at h
  split at h <;> cases h
  rename_i hread
  exact of_readFull hread

theorem read_of_flatten (hlen : d.length = n) (h : src.flatten = d ++ tail) :
    ∃ rest, read n src = .ok (d, rest) ∧ rest.flatten = tail := by
  obtain ⟨rest, hread, hrest⟩ := readFull_of_flatten h
  exact ⟨rest, by rw [read, ← hlen, hread], hrest⟩

theorem of_readHost {kind : UInt8} {host : String}
    (h : readHost names kind src = .ok (host, rest)) :
    ∃ a : Address, a.kind = kind ∧ a.host names = host ∧ src.flatten = a.bytes ++ rest.flatten := by
  unfold readHost at h
  split at h
  · rename_i hkind
    obtain ⟨⟨ip, src₁⟩, hip, heq⟩ := bind_eq_ok.mp h
    cases heq
    obtain ⟨hlen, hflat⟩ := of_read hip
    rcases hkind with rfl | rfl
    · exact ⟨.ipv4 ip hlen, rfl, rfl, hflat⟩
    · exact ⟨.ipv6 ip hlen, rfl, rfl, hflat⟩
  split at h
  · rename_i hkind
    obtain ⟨⟨count, src₁⟩, hcount, h⟩ := bind_eq_ok.mp h
    obtain ⟨⟨name, src₂⟩, hname, heq⟩ := bind_eq_ok.mp h
    cases heq
    obtain ⟨hone, hflat⟩ := of_read hcount
    obtain ⟨count, rfl⟩ := length_eq_one_iff.mp hone
    obtain ⟨hlen, hflat₁⟩ := of_read hname
    refine ⟨.domain count name hlen, hkind.symm, rfl, ?_⟩
    rw [hflat, hflat₁]
    rfl
  · cases h

theorem readHost_of_flatten {a : Address} (h : src.flatten = a.bytes ++ tail) :
    ∃ rest, readHost names a.kind src = .ok (a.host names, rest) ∧ rest.flatten = tail := by
  cases a with
  | ipv4 ip hlen | ipv6 ip hlen =>
    obtain ⟨rest, hread, hrest⟩ := read_of_flatten hlen h
    exact ⟨rest, bind_eq_ok.mpr ⟨_, hread, rfl⟩, hrest⟩
  | domain count name hlen =>
    obtain ⟨src₁, hcount, h⟩ := read_of_flatten (d := [count]) rfl h
    obtain ⟨rest, hname, hrest⟩ := read_of_flatten hlen h
    exact ⟨rest, bind_eq_ok.mpr ⟨_, hcount, bind_eq_ok.mpr ⟨_, hname, rfl⟩⟩, hrest⟩

/-- **The parser** reads just the streams that begin with a greeting and a request to connect, if
the greeting can be answered. -/
theorem socksRequest_eq_ok {dest : String} : socksRequest names written src = .ok dest ↔
    written = true ∧ ∃ (hello : Hello) (req : Connect), hello.bytes ++ req.bytes <+: src.flatten ∧
      destOf names (req.address.host names) req.port = dest := by
  simp only [socksRequest, bind_eq_ok, Prod.exists, Unique.exists_iff, PUnit.default_eq_unit,
    require_eq_ok, Bool.and_eq_true, decide_eq_true_eq, Except.ok.injEq]
  constructor
  · rintro ⟨hdr, src₁, hhdr, hversion, methods, src₂, hmethods, ⟨hwritten, hauth⟩, req, src₃, hreq,
      hversion', host, src₄, hhost, port, src₅, hport, hconnect, rfl⟩
    -- each read, in order, takes its length off the stream
    obtain ⟨hlen₁, hflat₁⟩ := of_read hhdr
    obtain ⟨version, count, rfl⟩ := length_eq_two.mp hlen₁
    obtain rfl : version = socksVersion := hversion
    obtain ⟨hlen₂, hflat₂⟩ := of_read hmethods
    obtain ⟨hlen₃, hflat₃⟩ := of_read hreq
    obtain ⟨version', fields, rfl⟩ := exists_cons_of_length_eq_add_one hlen₃
    obtain ⟨command, reserved, kind, rfl⟩ := length_eq_three.mp (Nat.succ.inj hlen₃)
    obtain rfl : version' = socksVersion := hversion'
    obtain rfl : command = socksConnect := hconnect
    obtain ⟨a, hkind, rfl, hflat₄⟩ := of_readHost hhost
    obtain rfl : a.kind = kind := hkind
    obtain ⟨hlen₅, hflat₅⟩ := of_read hport
    obtain ⟨high, low, rfl⟩ := length_eq_two.mp hlen₅
    refine ⟨hwritten, ⟨count, methods, hlen₂, hauth⟩, ⟨reserved, a, high, low⟩,
      ⟨src₅.flatten, ?_⟩, rfl⟩
    rw [hflat₁, hflat₂, hflat₃, hflat₄, hflat₅]
    simp [Hello.bytes, Connect.bytes]
  · rintro ⟨rfl, hello, req, ⟨tail, hflat⟩, rfl⟩
    simp only [Hello.bytes, Connect.bytes, append_assoc] at hflat
    obtain ⟨src₁, hhdr, h₁⟩ := read_of_flatten (d := [socksVersion, hello.count]) rfl hflat.symm
    obtain ⟨src₂, hmethods, h₂⟩ := read_of_flatten hello.counted h₁
    obtain ⟨src₃, hreq, h₃⟩ := read_of_flatten
      (d := [socksVersion, socksConnect, req.reserved, req.address.kind]) rfl h₂
    obtain ⟨src₄, hhost, h₄⟩ := readHost_of_flatten h₃
    obtain ⟨src₅, hport, -⟩ := read_of_flatten (d := [req.portHigh, req.portLow]) rfl h₄
    exact ⟨_, src₁, hhdr, rfl, _, src₂, hmethods, ⟨rfl, hello.noAuth⟩, _, src₃, hreq, rfl, _, src₄,
      hhost, _, src₅, hport, rfl, rfl⟩

/-! ## What is dialled -/

theorem destOf_inj {host host' : String} {port port' : Nat}
    (h : destOf names host port = destOf names host' port') :
    normHost names host = normHost names host' ∧ port = port' := by
  have hdigits : ∀ n : Nat, validPort (toString n).toList := by
    intro n
    rw [Nat.toString_eq_ofList_toDigits, String.toList_ofList]
    exact all_eq_true.mpr fun c hc => Nat.isDigit_of_mem_toDigits (by decide) (by decide) hc
  obtain ⟨hhost, hport⟩ := joinHostPort_inj (hdigits port) (hdigits port') h
  rw [Nat.toString_eq_ofList_toDigits, Nat.toString_eq_ofList_toDigits, String.ofList_inj] at hport
  have hitoa : itoa port = itoa port' := congrArg (map ascii) hport
  rw [← natOfDigits_itoa port, hitoa, natOfDigits_itoa]
  exact ⟨hhost, rfl⟩

theorem Socks.dialled_eq_some {s : Socks} {dial : Outcome} {address : String} :
    (s.socksConn written dial src).dialled = some address ↔
      ∃ dest, socksRequest s.names written src = .ok dest ∧ s.routes dest = some address := by
  unfold Socks.socksConn
  cases socksRequest s.names written src with
  | error told => simp
  | ok dest => cases hroute : s.routes dest <;> simp [hroute]

/-- **What a client has dialled.** For every stream of a client, in whatever reads it comes, the
address dialled is the one pinned for a route of the session, and it is dialled just when the stream
begins with a greeting that offers no authentication, to which the answer can be written, and a
request to connect to that route: the same host when both are normalised, and the same port. For any
other stream nothing is dialled. -/
theorem socks_dials_what_is_asked (s : Socks) (written : Bool) (dial : Outcome)
    (src : List Bytes) (address : String) :
    (s.socksConn written dial src).dialled = some address ↔
      written = true ∧ ∃ r ∈ s.allow, r.pinned = address ∧ ∃ (hello : Hello) (req : Connect),
        hello.bytes ++ req.bytes <+: src.flatten ∧
          normHost s.names (req.address.host s.names) = normHost s.names r.host ∧
            req.port = r.port := by
  simp only [Socks.dialled_eq_some, socksRequest_eq_ok, Socks.routes_eq_some]
  constructor
  · rintro ⟨_, ⟨hwritten, hello, req, hstream, rfl⟩, r, hr, hpin, hdest⟩
    obtain ⟨hhost, hport⟩ := destOf_inj hdest.symm
    exact ⟨hwritten, r, hr, hpin, hello, req, hstream, hhost, hport⟩
  · rintro ⟨hwritten, r, hr, hpin, hello, req, hstream, hhost, hport⟩
    refine ⟨_, ⟨hwritten, hello, req, hstream, rfl⟩, r, hr, hpin, ?_⟩
    rw [destOf, destOf, hhost, hport]

/-- An application at one origin. -/
def oneRoute : Socks where
  names := { asciiNames with parseIP := fun s => parseIP s.toList }
  allow := [⟨"app.corp", 443, "10.0.0.5:443"⟩]
  valid := by decide +kernel

example : ((oneRoute.socksConn true .connected [[5, 2, 2], [0, 5, 1, 0, 3, 9] ++ lit "APP.corp.",
      [1, 187, 22]]).dialled,
    (oneRoute.socksConn true .connected [[5, 1, 0, 5, 1, 0, 1, 10, 0, 0, 5, 1, 187]]).dialled) =
      (some "10.0.0.5:443", none) := by
  decide +kernel

end Zanskar.Apprelay
