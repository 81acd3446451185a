import Zanskar.Ipspace
import Zanskar.Lib.Machine

/-!
# The application relay's proxy (`internal/gateway/apprelay/proxy.go`)

A session's browser reaches the application, and what its pages depend on, through a proxy that
decides for each request whether and where its destination may be reached. A route is dialled at the
address the gateway pinned. Any other host is looked up, every address it resolves to is checked,
and one of them is picked; the decision is reused for a minute, the address stays in the table the
dialers read. The transport that carries a request dials later, and names the destination itself.

Requests interleave here one operation on the shared tables at a time, a lookup may end at any time
with any answer, and a request that was forwarded may dial at any time and any number of times.
`relay_dials_what_was_decided` holds whatever `strings.ToLower`, `net.ParseIP`, `IP.String` and IDNA
make of a text.
-/

namespace Zanskar.Apprelay

open Go Lib Ipspace List Function

/-! ## Destinations -/

/-- What of the standard library the names depend on: `strings.ToLower`, `net.ParseIP`, `IP.String`,
and the ASCII form of a name. -/
structure Names where
  toLower : String → String
  parseIP : String → Option IP
  ipString : IP → String
  toASCII : String → String

/-- `strings.TrimPrefix` of one character. -/
def trimFront (c : Char) (cs : List Char) : List Char := if cs.head? = some c then cs.tail else cs

/-- `strings.TrimSuffix` of one character. -/
def trimBack (c : Char) (cs : List Char) : List Char :=
  if cs.getLast? = some c then cs.dropLast else cs

/-- `normHost`. -/
def normHost (names : Names) (host : String) : String :=
  let h := trimBack '.' (names.toLower (trimSpace host)).toList
  let h := String.ofList (trimBack ']' (trimFront '[' h))
  match names.parseIP h with
  | some ip => names.ipString ip
  | none => h

/-- **What `normHost` takes for one host**: a name, or an address in any spelling, that is written
in any case, with white space around it, in brackets, or with one dot behind it. -/
theorem normHost_spelling (names : Names) {host : String} {cs : List Char}
    (hspelling : (names.toLower (trimSpace host)).toList ∈
      [cs, cs ++ ['.'], '[' :: cs ++ [']'], '[' :: cs ++ [']', '.']])
    (hfront : cs.head? ≠ some '[') (hback : cs.getLast? ≠ some '.' ∧ cs.getLast? ≠ some ']') :
    normHost names host =
      ((names.parseIP (String.ofList cs)).map names.ipString).getD (String.ofList cs) := by
  have hbare : trimBack ']' (trimFront '[' (trimBack '.' (names.toLower (trimSpace host)).toList)) =
      cs := by
    simp only [mem_cons, not_mem_nil, or_false] at hspelling
    rcases hspelling with h | h | h | h <;> rw [h]
    · simp [trimBack, trimFront, hfront, hback]
    · simp [trimBack, trimFront, hfront, hback]
    · simp [trimBack, trimFront, getLast?_cons]
    · simp [trimBack, trimFront, getLast?_cons, dropLast]
  rw [normHost, hbare]
  cases names.parseIP (String.ofList cs) <;> rfl

/-- `canonicalDest`. -/
def canonicalDest (names : Names) (hostport scheme : String) : String :=
  match splitHostPort hostport with
  | some (host, port) => joinHostPort (normHost names host) port
  | none => joinHostPort (normHost names hostport) (if scheme = "https" then "443" else "80")

/-- `Route`: an origin, and the address the gateway pinned for it. -/
structure Route where
  host : String
  port : Nat
  pinned : String

/-- A destination, as the table of routes has it under its key. -/
def destOf (names : Names) (host : String) (port : Nat) : String :=
  joinHostPort (normHost names host) (toString port)

/-- `routes`: a later entry replaces an earlier one. -/
def routesOf (names : Names) (allow : List Route) (dest : String) : Option String :=
  (allow.reverse.find? fun r => destOf names r.host r.port = dest).map Route.pinned

/-- `Proxy`: the origins, and the private addresses a dependency may be at. -/
structure Proxy where
  names : Names
  allow : List Route
  privateNetworks : List IPNet
  privateHosts : List (String × String)

def Proxy.routes (px : Proxy) : String → Option String := routesOf px.names px.allow

/-- `private`. -/
def Proxy.listed (px : Proxy) (dest : String) : Bool :=
  px.privateHosts.any fun (host, port) => joinHostPort (normHost px.names host) port = dest

/-- `inNets`. -/
def Proxy.inNets (px : Proxy) (ip : IP) : Bool := px.privateNetworks.any (·.contains ip)

/-! ## Decisions -/

/-- The kinds of a destination that may be reached. -/
inductive Kind where
  | origin
  | publicHost
  | privateHost
  deriving DecidableEq

/-- The address a destination is dialled at: as a route has it, or the one picked, with the port. -/
inductive Pin where
  | route (address : String)
  | picked (ip : IP) (port : String)
  deriving DecidableEq

/-- `decision`, without its time: a refusal has a reason and no address. -/
inductive Decision where
  | refused (why : String)
  | allowed (kind : Kind) (pin : Pin)
  deriving DecidableEq

/-- What a lookup ended with. -/
inductive Answer where
  | failed (why : String)
  | addresses (ips : List IP)

def browserServices : List String :=
  ["accounts.google.com", "update.googleapis.com", "clients1.google.com", "clients2.google.com",
    "clients3.google.com", "clients4.google.com", "clients5.google.com", "clients6.google.com"]

/-- The address to dial, when another one was checked: an IPv4 address before an IPv6 one. -/
def prefer (pick : Option IP) (ip : IP) : IP :=
  match pick with
  | none => ip
  | some p => if (to4 ip).isSome && (to4 p).isNone then ip else p

/-- The loop of `decide` over the addresses of a host: `literal` is a host that is an address. -/
def Proxy.check (px : Proxy) (dest port : String) (literal : Bool) (kind : Kind) (pick : Option IP) :
    List IP → Decision
  | [] =>
    match pick with
    | some ip => .allowed kind (.picked ip port)
    | none => .refused "resolves to nothing"
  | ip :: ips =>
    let why := reserved ip
    if why = "" then px.check dest port literal kind (some (prefer pick ip)) ips
    else if why = "private" then
      if px.listed dest || px.inNets ip then
        px.check dest port literal .privateHost (some (prefer pick ip)) ips
      else .refused "private"
    else if literal then .refused why
    else .refused ("resolves to " ++ px.names.ipString ip ++ ", which is " ++ why)

/-- The addresses of a host: an address is its own, a name is looked up. -/
def Proxy.addresses (px : Proxy) (host : String) (ans : Answer) : Answer :=
  match px.names.parseIP host with
  | some ip => .addresses [ip]
  | none => ans

/-- `decide`, given what a lookup of the host ends with. -/
def Proxy.decide (px : Proxy) (dest : String) (ans : Answer) : Decision :=
  match splitHostPort dest with
  | none => .refused "not host:port"
  | some (host, port) =>
    if host ∈ browserServices then .refused "the browser's own service"
    else
      match px.addresses host ans with
      | .failed why => .refused ("lookup failed: " ++ why)
      | .addresses ips =>
        px.check dest port (px.names.parseIP host).isSome .publicHost none ips

/-- An address a dependency may be at: public, or private and that of a host that is listed, or in a
network that is. -/
def Proxy.Allows (px : Proxy) (dest : String) (ip : IP) : Prop :=
  reserved ip = "" ∨ reserved ip = "private" ∧
    ((∃ h ∈ px.privateHosts, joinHostPort (normHost px.names h.1) h.2 = dest) ∨
      ∃ net ∈ px.privateNetworks, net.contains ip = true)

variable {pick : Option IP} {ips : List IP} {ip : IP} {pin : Pin} {kind : Kind} {dest : String}
  {px : Proxy}

theorem prefer_mem (h : ∀ p, pick = some p → p ∈ ips) (hip : ip ∈ ips) : prefer pick ip ∈ ips := by
  unfold prefer
  split
  · exact hip
  · split
    · exact hip
    · exact h _ rfl

/-- The loop lets through only a list all of whose addresses are allowed, and picks one of them. -/
theorem check_spec (port : String) (literal : Bool) {all : List IP} {kind' : Kind}
    (hpick : ∀ p, pick = some p → p ∈ all) (hsub : ∀ ip ∈ ips, ip ∈ all)
    (h : px.check dest port literal kind pick ips = .allowed kind' pin) :
    (∀ ip ∈ ips, px.Allows dest ip) ∧ (kind ≠ .origin → kind' ≠ .origin) ∧
      ∃ ip ∈ all, pin = .picked ip port := by
  induction ips generalizing kind pick with
  | nil =>
    cases pick with
    | none => cases h
    | some p =>
      cases h
      exact ⟨fun _ hip => (nomatch hip), id, p, hpick p rfl, rfl⟩
  | cons ip ips ih =>
    have hpick' : ∀ p, some (prefer pick ip) = some p → p ∈ all := by
      rintro p ⟨⟩
      exact prefer_mem hpick (hsub ip mem_cons_self)
    have hsub' : ∀ ip' ∈ ips, ip' ∈ all := fun ip' hip' => hsub ip' (mem_cons_of_mem ip hip')
    rw [Proxy.check] at h
    split at h
    · rename_i hpublic
      obtain ⟨hall, hkind, hto⟩ := ih hpick' hsub' h
      exact ⟨forall_mem_cons.mpr ⟨.inl hpublic, hall⟩, hkind, hto⟩
    split at h
    · rename_i hprivate
      split at h
      · rename_i hok
        obtain ⟨hall, hkind, hto⟩ := ih hpick' hsub' h
        refine ⟨forall_mem_cons.mpr ⟨.inr ⟨hprivate, ?_⟩, hall⟩, ?_, hto⟩
        · rw [Bool.or_eq_true, Proxy.listed, Proxy.inNets, any_eq_true, any_eq_true] at hok
          simpa only [decide_eq_true_eq] using hok
        · exact fun _ => hkind (by decide)
      · cases h
    split at h <;> cases h

/-- **Decisions.** One that is no refusal has checked every address of the host and picked one,
which keeps the port. -/
theorem decide_spec {ans : Answer} (h : px.decide dest ans = .allowed kind pin) :
    kind ≠ .origin ∧ ∃ host port ips, splitHostPort dest = some (host, port) ∧
      px.addresses host ans = .addresses ips ∧ (∀ ip ∈ ips, px.Allows dest ip) ∧
        ∃ ip ∈ ips, pin = .picked ip port := by
  unfold Proxy.decide at h
  split at h
  · cases h
  · rename_i host port hsplit
    split at h
    · cases h
    split at h
    · cases h
    · rename_i ips haddr
      obtain ⟨hall, hkind, hto⟩ := check_spec port _ (by rintro p ⟨⟩) (fun _ hip => hip) h
      exact ⟨hkind (by decide), host, port, ips, hsplit, haddr, hall, hto⟩

/-! ## Requests -/

/-- The parts of a request that decide what it opens. -/
structure Request where
  method : String
  secFetchMode : String
  secFetchDest : String
  accept : String

/-- `isDocument`. -/
def Request.isDocument (r : Request) : Bool :=
  if r.secFetchMode ≠ "" ∨ r.secFetchDest ≠ "" then
    r.secFetchMode = "navigate" && r.secFetchDest = "document"
  else (r.method = "GET" || r.method = "HEAD") && "text/html".toList.isPrefixOf r.accept.toList

/-- Where a request stands: its host is looked up; its decision is in the cache and the pin not in
the table yet; it was refused; it got the relay's page; the transport has it. -/
inductive Phase where
  | looking
  | deciding (kind : Kind) (pin : Pin)
  | refused (why : String)
  | blocked
  | forwarded (kind : Kind)
  deriving DecidableEq

/-- `handle`, once its destination is decided. -/
def handle (req : Request) : Decision → Phase
  | .refused why => .refused why
  | .allowed kind _ => if kind ≠ .origin ∧ req.isDocument = true then .blocked else .forwarded kind

/-- A request on its way through the proxy. -/
structure Call where
  scheme : String
  dest : String
  req : Request
  phase : Phase

/-- A dial: by which request, under the name the transport uses, and where to. -/
structure Dial where
  call : Nat
  addr : String
  pin : Pin

/-- A decision that was made, on the addresses its host had then. -/
structure Made where
  dest : String
  ans : Answer

structure State where
  /-- The cache, with the time of each decision. -/
  decided : String → Option (Decision × Int)
  pins : String → Option Pin
  calls : List Call
  dials : List Dial
  /-- Every decision made so far. -/
  made : List Made

def State.start : State := ⟨fun _ => none, fun _ => none, [], [], []⟩

/-- `decisionTTL`, in nanoseconds. -/
def decisionTTL : Int := 60000000000

/-- `destination` up to the lookup: a route is pinned, a decision in the cache is reused. -/
def arrive (px : Proxy) (s : State) (scheme dest : String) (req : Request) (now : Int) : State :=
  match px.routes dest with
  | some address =>
    { s with
      pins := Function.update s.pins dest (some (.route address))
      calls := s.calls ++ [⟨scheme, dest, req, handle req (.allowed .origin (.route address))⟩] }
  | none =>
    let phase :=
      match s.decided dest with
      | some (d, time) => if now - time < decisionTTL then handle req d else .looking
      | none => .looking
    { s with calls := s.calls ++ [⟨scheme, dest, req, phase⟩] }

/-- Steps: a request with an absolute URI; one in a tunnel, where `tls` is what its first byte told;
a lookup ends and the decision is cached; its pin is stored; the transport dials. -/
inductive Label where
  | plain (host urlScheme : String) (req : Request) (now : Int)
  | tunnelled (host : String) (tls : Bool) (req : Request) (now : Int)
  | lookedUp (i : Nat) (ans : Answer) (now : Int)
  | pinned (i : Nat)
  | dialled (i : Nat)

/-- A request goes on to another phase. -/
def State.setPhase (s : State) (i : Nat) (phase : Phase) : State :=
  { s with calls := s.calls.modify i ({ · with phase := phase }) }

def step (px : Proxy) (s : State) : Label → Option State
  | .plain host urlScheme req now =>
    if host = "" then none
    else some (arrive px s "http" (canonicalDest px.names host urlScheme) req now)
  | .tunnelled host tls req now =>
    let dest := canonicalDest px.names host "https"
    if (splitHostPort dest).isNone then none
    else some (arrive px s (if tls then "https" else "http") dest req now)
  | .lookedUp i ans now =>
    match s.calls[i]? with
    | some ⟨_, dest, req, .looking⟩ =>
      let d := px.decide dest ans
      let s : State := { s with
        decided := Function.update s.decided dest (some (d, now))
        made := s.made ++ [⟨dest, ans⟩] }
      match d with
      | .refused _ => some (s.setPhase i (handle req d))
      | .allowed kind pin => some (s.setPhase i (.deciding kind pin))
    | _ => none
  | .pinned i =>
    match s.calls[i]? with
    | some ⟨_, dest, req, .deciding kind pin⟩ =>
      some ({ s with pins := Function.update s.pins dest (some pin) }.setPhase i
        (handle req (.allowed kind pin)))
    | _ => none
  | .dialled i =>
    match s.calls[i]? with
    | some ⟨scheme, dest, _, .forwarded _⟩ =>
      let addr := canonicalAddr px.names.toASCII scheme dest
      match s.pins addr with
      | some pin => some { s with dials := s.dials ++ [⟨i, addr, pin⟩] }
      | none => some s
    | _ => none

/-! ## What the tables hold -/

/-- An address a destination may be dialled at: the pin of the route it names; or else the one
picked by a decision on it, with the port it names, when every address its host had then was
allowed. -/
def Proxy.Sanctions (px : Proxy) (made : List Made) (dest : String) (pin : Pin) : Prop :=
  (∃ address, px.routes dest = some address ∧ pin = .route address) ∨
    px.routes dest = none ∧ ∃ m ∈ made, m.dest = dest ∧
      ∃ host port ips, splitHostPort dest = some (host, port) ∧
        px.addresses host m.ans = .addresses ips ∧ (∀ ip ∈ ips, px.Allows dest ip) ∧
          ∃ ip ∈ ips, pin = .picked ip port

variable {made made' : List Made}

theorem Proxy.Sanctions.mono (h : px.Sanctions made dest pin) (hsub : made ⊆ made') :
    px.Sanctions made' dest pin := by
  refine h.imp_right ?_
  rintro ⟨hroute, m, hm, hrest⟩
  exact ⟨hroute, m, hsub hm, hrest⟩

theorem Proxy.Sanctions.not_inner {port : String} (h : px.Sanctions made dest (.picked ip port)) :
    ¬Inner ip := by
  rcases h with ⟨_, -, hpin⟩ | ⟨-, m, -, -, host, port', ips, -, -, hall, ip', hip', hpin⟩
  · cases hpin
  · cases hpin
    exact reserved_reachable ((hall ip hip').imp_right And.left)

/-- What is so of a request in each phase. -/
def Call.Ok (px : Proxy) (made : List Made) (c : Call) : Prop :=
  match c.phase with
  | .looking => px.routes c.dest = none
  | .deciding kind pin => kind ≠ .origin ∧ px.Sanctions made c.dest pin
  | .forwarded _ => c.req.isDocument = true → px.routes c.dest ≠ none
  | .refused _ | .blocked => True

theorem Call.Ok.mono {c : Call} (h : c.Ok px made) (hsub : made ⊆ made') : c.Ok px made' := by
  unfold Call.Ok at h ⊢
  split at h
  · exact h
  · exact ⟨h.1, h.2.mono hsub⟩
  · exact h
  · trivial
  · trivial

/-- A request that is handled opens a document at a route only. -/
theorem ok_handle {scheme : String} {req : Request} {d : Decision}
    (h : ∀ pin, d = .allowed .origin pin → px.routes dest ≠ none) :
    Call.Ok px made ⟨scheme, dest, req, handle req d⟩ := by
  cases d with
  | refused why => trivial
  | allowed kind pin =>
    show Call.Ok px made ⟨scheme, dest, req, if _ then _ else _⟩
    split
    · trivial
    · rename_i hnot
      intro hdoc
      have hkind : kind = .origin := by
        by_contra hkind
        exact hnot ⟨hkind, hdoc⟩
      exact h pin (hkind ▸ rfl)

/-- The tables hold what was decided, and so does what was dialled. -/
structure Proxy.Kept (px : Proxy) (s : State) : Prop where
  pins : ∀ dest pin, s.pins dest = some pin → px.Sanctions s.made dest pin
  cache : ∀ dest kind pin time, s.decided dest = some (.allowed kind pin, time) → kind ≠ .origin
  calls : ∀ c ∈ s.calls, c.Ok px s.made
  dials : ∀ d ∈ s.dials, px.Sanctions s.made d.addr d.pin ∧ ∃ c kind, s.calls[d.call]? = some c ∧
    c.phase = .forwarded kind ∧ d.addr = canonicalAddr px.names.toASCII c.scheme c.dest

theorem kept_start : px.Kept .start where
  pins := fun _ _ h => nomatch h
  cache := fun _ _ _ _ h => nomatch h
  calls := fun _ h => nomatch h
  dials := fun _ h => nomatch h

namespace Proxy.Kept

variable {px : Proxy} {s : State} {i : Nat} {c : Call}

theorem add (h : px.Kept s) (hc : c.Ok px s.made) : px.Kept { s with calls := s.calls ++ [c] } :=
  { h with
    calls := forall_mem_append.mpr ⟨h.calls, forall_mem_singleton.mpr hc⟩
    dials := by
      intro d hd
      obtain ⟨hpin, c', kind, hget, hrest⟩ := h.dials d hd
      refine ⟨hpin, c', kind, ?_, hrest⟩
      show (s.calls ++ [c])[d.call]? = some c'
      rw [List.getElem?_append_left (List.getElem?_eq_some_iff.mp hget).1]
      exact hget }

theorem setPhase (h : px.Kept s) (hget : s.calls[i]? = some c)
    (hphase : ∀ kind, c.phase ≠ .forwarded kind) {phase : Phase}
    (hok : Call.Ok px s.made { c with phase := phase }) : px.Kept (s.setPhase i phase) :=
  { h with
    calls := by
      intro c' hc'
      obtain ⟨j, hj⟩ := getElem?_of_mem hc'
      rw [State.setPhase, getElem?_modify] at hj
      by_cases hij : i = j
      · subst hij
        rw [hget] at hj
        simp only [if_true, Option.map_eq_map, Option.map_some, Option.some.injEq] at hj
        exact hj ▸ hok
      · simp only [hij, if_false, id_map'] at hj
        exact h.calls c' (mem_of_getElem? hj)
    dials := by
      intro d hd
      obtain ⟨hpin, c', kind, hget', hfwd, haddr⟩ := h.dials d hd
      refine ⟨hpin, c', kind, ?_, hfwd, haddr⟩
      have hne : i ≠ d.call := by
        rintro rfl
        rw [hget] at hget'
        exact hphase kind (Option.some.inj hget' ▸ hfwd)
      rw [State.setPhase, getElem?_modify]
      simp only [hne, if_false, id_map']
      exact hget' }

theorem setPin (h : px.Kept s) (hpin : px.Sanctions s.made dest pin) :
    px.Kept { s with pins := Function.update s.pins dest (some pin) } :=
  { h with
    pins := by
      intro dest' pin' (hpin' : Function.update s.pins dest (some pin) dest' = some pin')
      by_cases heq : dest' = dest
      · subst heq
        rw [update_self] at hpin'
        exact Option.some.inj hpin' ▸ hpin
      · rw [update_of_ne heq] at hpin'
        exact h.pins dest' pin' hpin' }

theorem decides (h : px.Kept s) (dest : String) (ans : Answer) (now : Int) :
    px.Kept { s with
      decided := Function.update s.decided dest (some (px.decide dest ans, now))
      made := s.made ++ [⟨dest, ans⟩] } where
  pins := fun dest' pin hpin => (h.pins dest' pin hpin).mono (subset_append_left _ _)
  cache := by
    intro dest' kind pin time (hcached : Function.update s.decided dest _ dest' = _)
    by_cases heq : dest' = dest
    · subst heq
      rw [update_self] at hcached
      exact (decide_spec (congrArg Prod.fst (Option.some.inj hcached))).1
    · rw [update_of_ne heq] at hcached
      exact h.cache dest' kind pin time hcached
  calls := fun c hc => (h.calls c hc).mono (subset_append_left _ _)
  dials := fun d hd => (h.dials d hd).imp_left (·.mono (subset_append_left _ _))

theorem dials_add (h : px.Kept s) (hget : s.calls[i]? = some c)
    (hphase : c.phase = .forwarded kind) {addr : String}
    (haddr : addr = canonicalAddr px.names.toASCII c.scheme c.dest)
    (hpin : s.pins addr = some pin) : px.Kept { s with dials := s.dials ++ [⟨i, addr, pin⟩] } :=
  { h with
    dials := forall_mem_append.mpr ⟨h.dials,
      forall_mem_singleton.mpr ⟨h.pins addr pin hpin, c, kind, hget, hphase, haddr⟩⟩ }

theorem arrive (h : px.Kept s) (scheme dest : String) (req : Request) (now : Int) :
    px.Kept (Apprelay.arrive px s scheme dest req now) := by
  unfold Apprelay.arrive
  cases hroute : px.routes dest with
  | some address =>
    have hpin : px.Sanctions s.made dest (.route address) := .inl ⟨address, hroute, rfl⟩
    refine (h.setPin hpin).add (ok_handle fun _ _ => ?_)
    rw [hroute]
    exact Option.some_ne_none address
  | none =>
    refine h.add ?_
    cases hcached : s.decided dest with
    | none => exact hroute
    | some cached =>
      obtain ⟨d, time⟩ := cached
      dsimp only
      split
      · refine ok_handle fun pin hd => ?_
        subst hd
        exact absurd rfl (h.cache dest .origin pin time hcached)
      · exact hroute

/-- **One step** keeps the tables. -/
theorem step (h : px.Kept s) {l : Label} {t : State} (hstep : Apprelay.step px s l = some t) :
    px.Kept t := by
  cases l <;> simp only [Apprelay.step] at hstep
  case plain | tunnelled =>
    split at hstep <;> cases hstep
    exact h.arrive _ _ _ _
  case lookedUp i ans now =>
    split at hstep
    · rename_i scheme dest req hget
      -- only destinations without a route are looked up
      have hroute : px.routes dest = none := h.calls _ (mem_of_getElem? hget)
      have hdecides := h.decides dest ans now
      cases hd : px.decide dest ans with
      | refused why =>
        rw [hd] at hstep hdecides
        cases hstep
        exact hdecides.setPhase hget (fun _ => nofun) trivial
      | allowed kind pin =>
        rw [hd] at hstep hdecides
        cases hstep
        obtain ⟨hkind, hpicked⟩ := decide_spec hd
        refine hdecides.setPhase hget (fun _ => nofun) ⟨hkind, .inr ⟨hroute, ?_⟩⟩
        exact ⟨⟨dest, ans⟩, mem_append_right _ mem_cons_self, rfl, hpicked⟩
    · cases hstep
  case pinned i =>
    split at hstep <;> cases hstep
    rename_i scheme dest req kind pin hget
    obtain ⟨hkind, hpin⟩ := h.calls _ (mem_of_getElem? hget)
    refine (h.setPin hpin).setPhase hget (fun _ => nofun) (ok_handle fun pin' hd => ?_)
    -- only other hosts than the origin wait to be pinned
    cases hd
    exact absurd rfl hkind
  case dialled i =>
    split at hstep
    · rename_i scheme dest req kind hget
      generalize haddr : canonicalAddr px.names.toASCII scheme dest = addr at hstep
      split at hstep <;> cases hstep
      · rename_i hpin
        exact h.dials_add hget rfl haddr.symm hpin
      · exact h
    · cases hstep

end Proxy.Kept

/-! ## Runs -/

/-- A destination that names its port, on a host in ASCII: the transport names it the same. -/
def Plain (dest : String) : Prop :=
  ∃ host port, dest = joinHostPort host port ∧ validPort port.toList = true ∧ port ≠ "" ∧
    isASCII host = true ∧ unbracket host.toList = host.toList

/-- **The relay dials what was decided.** Over every sequence of requests and every answer of the
resolver: a dial is of a request that was forwarded, under the name the transport gives its
destination, which is the destination itself where that is plain; it goes to the pin of the route so
named or to the address picked by a decision on it, all of whose host's addresses were public, or
private and allowed; so no address inside is dialled but as a route's pin. A request that was
refused, or that opens a document where there is no route, has no dial. -/
theorem relay_dials_what_was_decided (px : Proxy) {ls : List Label} {t : State}
    (hrun : Run (step px) .start ls t) :
    (∀ d ∈ t.dials, px.Sanctions t.made d.addr d.pin ∧
      (∀ ip port, d.pin = .picked ip port → ¬Inner ip) ∧
      ∃ c kind, t.calls[d.call]? = some c ∧ c.phase = .forwarded kind ∧
        d.addr = canonicalAddr px.names.toASCII c.scheme c.dest ∧
        (Plain c.dest → d.addr = c.dest)) ∧
    ∀ i c, t.calls[i]? = some c →
      (∃ why, c.phase = .refused why) ∨ c.req.isDocument = true ∧ px.routes c.dest = none →
        ∀ d ∈ t.dials, d.call ≠ i := by
  have h : px.Kept t := hrun.keeps px.Kept (fun _ _ _ _ hu hstep => hu.step hstep) kept_start
  constructor
  · intro d hd
    obtain ⟨hpin, c, kind, hget, hphase, haddr⟩ := h.dials d hd
    refine ⟨hpin, fun ip port heq => (heq ▸ hpin).not_inner, c, kind, hget, hphase, haddr, ?_⟩
    rintro ⟨host, port, hdest, hport, hne, hascii, hhost⟩
    rw [haddr, hdest]
    exact canonicalAddr_joinHostPort hport hne hascii hhost
  · rintro i c hget hno d hd rfl
    obtain ⟨-, c', kind, hget', hphase, -⟩ := h.dials d hd
    obtain rfl := Option.some.inj (hget'.symm.trans hget)
    rcases hno with ⟨why, hrefused⟩ | ⟨hdoc, hroute⟩
    · cases hphase.symm.trans hrefused
    · have hok := h.calls c' (mem_of_getElem? hget)
      unfold Call.Ok at hok
      rw [hphase] at hok
      exact hok hdoc hroute

/-- The names of a library that knows ASCII, and no address but to print it. -/
def asciiNames : Names :=
  ⟨toLower, fun _ => none, fun ip => ".".intercalate (ip.map fun b => toString b.toNat), id⟩

/-- An application at one origin, and one network of private addresses allowed. -/
def oneOrigin : Proxy :=
  ⟨asciiNames, [⟨"app.example", 443, "10.0.0.5:443"⟩], [⟨[10, 1, 0, 0], 16⟩], []⟩

def opensPage : Request := ⟨"GET", "navigate", "document", ""⟩

def fetchesScript : Request := ⟨"GET", "no-cors", "script", ""⟩

/-- The page opens and fetches a script from a public host and one from a private one. The name of
the first is then bound to the loopback address: the lookup that follows, a minute later, is
refused. -/
def rebound : List Label :=
  [.tunnelled "APP.example.:443" true opensPage 0, .dialled 0,
    .tunnelled "cdn.example:443" true fetchesScript 0,
    .lookedUp 1 (.addresses [[93, 184, 216, 34]]) 0, .pinned 1, .dialled 1,
    .tunnelled "files.example:443" true fetchesScript 0,
    .lookedUp 2 (.addresses [[10, 1, 0, 9]]) 0, .pinned 2, .dialled 2,
    .tunnelled "cdn.example:443" true fetchesScript decisionTTL,
    .lookedUp 3 (.addresses [[127, 0, 0, 1]]) decisionTTL]

/-- Three dials, one at the pin and two at addresses that were checked; the request that was refused
has none. -/
theorem relay_dials_what_was_decided_rebound :
    ∃ t, Run (step oneOrigin) .start rebound t ∧
      t.dials.map Dial.pin = [.route "10.0.0.5:443", .picked [93, 184, 216, 34] "443",
        .picked [10, 1, 0, 9] "443"] ∧
      (∀ d ∈ t.dials, oneOrigin.Sanctions t.made d.addr d.pin) ∧
      ∀ d ∈ t.dials, d.call ≠ 3 :=
  Run.exists_of_decide (P := fun t => t.dials.map Dial.pin =
        [.route "10.0.0.5:443", .picked [93, 184, 216, 34] "443", .picked [10, 1, 0, 9] "443"] ∧
      ∃ c ∈ t.calls[3]?, c.phase = .refused "resolves to 127.0.0.1, which is loopback")
    (by decide +kernel) fun _ hrun ⟨hdials, c, hget, hrefused⟩ =>
      have ⟨hall, hno⟩ := relay_dials_what_was_decided oneOrigin hrun
      ⟨hdials, fun d hd => (hall d hd).1, hno 3 c hget (.inl ⟨_, hrefused⟩)⟩

end Zanskar.Apprelay
