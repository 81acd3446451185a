import Zanskar.Go.Text
import Zanskar.Go.Utf8

/-!
# Addresses (`net`, `net/url`)

`net.IP` is a slice of bytes: an IPv4 address has four of them, or sixteen in the form IPv6 maps it
to, and the tests of the package see through the second. A `host:port` is a string that is put
together and taken apart again, by `net` and, with rules of its own, by `net/url`; `http.Transport`
names the address it dials by the latter (`canonicalAddr`).

- `canonicalAddr_joinHostPort` : the transport names a destination as it stands when its port is
  written and its host is ASCII.
-/

namespace Zanskar.Go

open List

/-! ## IP addresses -/

/-- `net.IP`; no bytes is no address. -/
abbrev IP := Bytes

/-- `v4InV6Prefix`. -/
def v4InV6 : IP := replicate 10 0 ++ [0xff, 0xff]

/-- `net.IPv4`. -/
def ipv4 (a b c d : UInt8) : IP := v4InV6 ++ [a, b, c, d]

/-- `To4`. -/
def to4 (ip : IP) : Option IP :=
  if ip.length = 4 then some ip
  else if ip.length = 16 ∧ ip.take 12 = v4InV6 then some (ip.drop 12)
  else none

/-- `Equal`. -/
def ipEqual (ip x : IP) : Bool :=
  if ip.length = x.length then ip = x
  else if ip.length = 4 ∧ x.length = 16 then x.take 12 = v4InV6 && ip = x.drop 12
  else if ip.length = 16 ∧ x.length = 4 then ip.take 12 = v4InV6 && ip.drop 12 = x
  else false

/-- A byte of an address. -/
def byteAt (ip : IP) (i : Nat) : UInt8 := ip.getD i 0

/-- `IsUnspecified`. -/
def isUnspecified (ip : IP) : Bool :=
  ipEqual ip (ipv4 0 0 0 0) || ipEqual ip (replicate 16 0)

/-- `IsLoopback`. -/
def isLoopback (ip : IP) : Bool :=
  match to4 ip with
  | some v4 => byteAt v4 0 = 127
  | none => ipEqual ip (replicate 15 0 ++ [1])

/-- `IsLinkLocalUnicast`. -/
def isLinkLocalUnicast (ip : IP) : Bool :=
  match to4 ip with
  | some v4 => byteAt v4 0 = 169 && byteAt v4 1 = 254
  | none => ip.length = 16 && byteAt ip 0 = 0xfe && byteAt ip 1 &&& 0xc0 = 0x80

/-- `IsLinkLocalMulticast`. -/
def isLinkLocalMulticast (ip : IP) : Bool :=
  match to4 ip with
  | some v4 => byteAt v4 0 = 224 && byteAt v4 1 = 0 && byteAt v4 2 = 0
  | none => ip.length = 16 && byteAt ip 0 = 0xff && byteAt ip 1 &&& 0x0f = 0x02

/-- `IsMulticast`. -/
def isMulticast (ip : IP) : Bool :=
  match to4 ip with
  | some v4 => byteAt v4 0 &&& 0xf0 = 0xe0
  | none => ip.length = 16 && byteAt ip 0 = 0xff

/-- `IsPrivate`. -/
def isPrivate (ip : IP) : Bool :=
  match to4 ip with
  | some v4 => byteAt v4 0 = 10 || (byteAt v4 0 = 172 && byteAt v4 1 &&& 0xf0 = 16) ||
      (byteAt v4 0 = 192 && byteAt v4 1 = 168)
  | none => ip.length = 16 && byteAt ip 0 &&& 0xfe = 0xfc

/-- `IPNet`: a network number and how many of its leading bits count. -/
structure IPNet where
  number : IP
  ones : Nat

/-- `CIDRMask`, byte by byte. -/
def maskAt (ones i : Nat) : UInt8 := UInt8.ofNat (256 - 2 ^ (8 - min 8 (ones - 8 * i)))

/-- `Contains`. -/
def IPNet.contains (n : IPNet) (ip : IP) : Bool :=
  let x := (to4 ip).getD ip
  x.length = n.number.length && (range x.length).all fun i =>
    byteAt n.number i &&& maskAt n.ones i = byteAt x i &&& maskAt n.ones i

/-! ## Addresses in text -/

def isHexDigit (c : Char) : Bool := inRange c 0x30 0x39 || inRange c 0x41 0x46 || inRange c 0x61 0x66

def hexNibble (c : Char) : Nat :=
  if c.toNat ≤ 0x39 then c.toNat - 0x30
  else if c.toNat ≤ 0x46 then c.toNat - 0x37
  else c.toNat - 0x57

/-- `parseIPv4Fields`, with the fields read so far and what there is of the next. -/
def parseIPv4Fields (fields : IP) (val : Option Nat) : List Char → Option IP
  | [] => val.bind fun n => if fields.length = 3 then some (fields ++ [n.toUInt8]) else none
  | c :: s =>
    if inRange c 0x30 0x39 then
      let digit := c.toNat - 0x30
      match val with
      | none => parseIPv4Fields fields (some digit) s
      | some n =>
        -- no field has a leading zero
        if n = 0 ∨ 255 < n * 10 + digit then none
        else parseIPv4Fields fields (some (n * 10 + digit)) s
    else if c = '.' then
      match val with
      | none => none
      | some n =>
        if fields.length = 3 then none else parseIPv4Fields (fields ++ [n.toUInt8]) none s
    else none

/-- The groups of an IPv6 address, at most so many more of them: the bytes so far, and where among
them the ellipsis stands. -/
def parseIPv6Groups : Nat → IP → Option Nat → List Char → Option (IP × Option Nat)
  | 0, _, _, _ => none
  | n + 1, ip, ellipsis, s =>
    let digits := s.takeWhile isHexDigit
    let acc := digits.foldl (fun acc c => 16 * acc + hexNibble c) 0
    let group := [(acc / 256).toUInt8, acc.toUInt8]
    if digits = [] ∨ 4 < digits.length then none
    else
      match s.dropWhile isHexDigit with
      | [] => some (ip ++ group, ellipsis)
      | '.' :: _ =>
        -- the last four bytes may be written as an IPv4 address
        if (ellipsis = none ∧ ip.length ≠ 12) ∨ 12 < ip.length then none
        else (parseIPv4Fields [] none s).map fun v4 => (ip ++ v4, ellipsis)
      | [':', ':'] => if ellipsis = none then some (ip ++ group, some (ip.length + 2)) else none
      | ':' :: ':' :: rest =>
        if ellipsis = none then parseIPv6Groups n (ip ++ group) (some (ip.length + 2)) rest
        else none
      | ':' :: rest => if rest = [] then none else parseIPv6Groups n (ip ++ group) ellipsis rest
      | _ :: _ => none

/-- The ellipsis stands for the groups that are missing, one at least. -/
def expandEllipsis : IP × Option Nat → Option IP
  | (ip, some i) =>
    if ip.length < 16 then some (ip.take i ++ replicate (16 - ip.length) 0 ++ ip.drop i)
    else none
  | (ip, none) => if ip.length < 16 then none else some ip

def parseIPv6 : List Char → Option IP
  | [':', ':'] => some (replicate 16 0)
  | ':' :: ':' :: s => (parseIPv6Groups 8 [] (some 0) s).bind expandEllipsis
  | s => (parseIPv6Groups 8 [] none s).bind expandEllipsis

/-- `net.ParseIP`: the first dot or colon tells which of the two it is. -/
def parseIP (s : List Char) : Option IP :=
  match s.find? (fun c => c = '.' || c = ':' || c = '%') with
  | some '.' => (parseIPv4Fields [] none s).map (v4InV6 ++ ·)
  | some ':' => if '%' ∈ s then none else parseIPv6 s
  | _ => none

/-- What an address in text is made of. -/
def isAddressChar (c : Char) : Bool := isHexDigit c || c = '.' || c = ':'

variable {ip : IP} {s : List Char} {c : Char} {host port : String}

theorem isAddressChar_of_parseIPv4Fields {fields : IP} {val : Option Nat}
    (h : parseIPv4Fields fields val s = some ip) : ∀ c ∈ s, isAddressChar c := by
  induction s generalizing fields val with
  | nil => exact fun c hc => (not_mem_nil hc).elim
  | cons d s ih =>
    unfold parseIPv4Fields at h
    by_cases hdigit : inRange d 0x30 0x39
    · have hd : isAddressChar d := by simp [isAddressChar, isHexDigit, hdigit]
      rw [if_pos hdigit] at h
      grind
    · by_cases hdot : d = '.'
      · have hd : isAddressChar d := by simp [isAddressChar, hdot]
        rw [if_neg hdigit, if_pos hdot] at h
        grind
      · rw [if_neg hdigit, if_neg hdot] at h
        cases h

theorem isAddressChar_of_parseIPv6Groups {n : Nat} {ellipsis : Option Nat} {out : IP × Option Nat}
    (h : parseIPv6Groups n ip ellipsis s = some out) : ∀ c ∈ s, isAddressChar c := by
  have hcolon : isAddressChar ':' := by decide
  induction n generalizing ip ellipsis s with
  | zero => cases h
  | succ n ih =>
    -- the digits in front are digits; what follows them is punctuation and the next groups
    suffices hrest : ∀ c ∈ s.dropWhile isHexDigit, isAddressChar c by
      intro c hc
      rw [← takeWhile_append_dropWhile (p := isHexDigit) (l := s)] at hc
      rcases mem_append.mp hc with hc | hc
      · simp [isAddressChar, mem_takeWhile_imp hc]
      · exact hrest c hc
    simp only [parseIPv6Groups] at h
    split at h
    · cases h
    · split at h
      case h_1 hs => simp [hs]
      case h_2 hs =>
        split at h
        · cases h
        · obtain ⟨v4, hv4, -⟩ := Option.map_eq_some_iff.mp h
          intro c hc
          exact isAddressChar_of_parseIPv4Fields hv4 c ((dropWhile_sublist _).subset hc)
      case h_3 hs => simp [hs, hcolon]
      case h_4 hs =>
        split at h
        · simpa [hs, hcolon] using ih h
        · cases h
      case h_5 hs =>
        split at h
        · cases h
        · simpa [hs, hcolon] using ih h
      case h_6 => cases h

theorem isAddressChar_of_parseIPv6 (h : parseIPv6 s = some ip) :
    ∀ c ∈ s, isAddressChar c := by
  have hcolon : isAddressChar ':' := by decide
  unfold parseIPv6 at h
  split at h
  · simp [hcolon]
  · obtain ⟨out, hout, -⟩ := Option.bind_eq_some_iff.mp h
    simpa [hcolon] using isAddressChar_of_parseIPv6Groups hout
  · obtain ⟨out, hout, -⟩ := Option.bind_eq_some_iff.mp h
    exact isAddressChar_of_parseIPv6Groups hout

/-- An address in text holds hexadecimal digits, dots and colons only. -/
theorem isAddressChar_of_parseIP (h : parseIP s = some ip) : ∀ c ∈ s, isAddressChar c := by
  unfold parseIP at h
  split at h
  · obtain ⟨v4, hv4, -⟩ := Option.map_eq_some_iff.mp h
    exact isAddressChar_of_parseIPv4Fields hv4
  · split at h
    · cases h
    · exact isAddressChar_of_parseIPv6 h
  · cases h

example : parseIP "10.0.0.7".toList = some (ipv4 10 0 0 7) ∧
    parseIP "fe80::1".toList = some ([0xfe, 0x80] ++ replicate 13 0 ++ [1]) ∧
    parseIP "10.0.07.1".toList = none ∧ parseIP "1:2:3:4:5:6:7::8".toList = none := by
  decide +kernel

/-! ## Hosts and ports -/

/-- A text around the last of a character. -/
def lastSplit (c : Char) : List Char → Option (List Char × List Char)
  | [] => none
  | d :: ds =>
    match lastSplit c ds with
    | some (front, back) => some (d :: front, back)
    | none => if d = c then some ([], ds) else none

theorem lastSplit_eq_none {cs : List Char} (h : c ∉ cs) : lastSplit c cs = none := by
  induction cs with
  | nil => rfl
  | cons d ds ih =>
    have hd : d ≠ c := fun hd => h (hd ▸ mem_cons_self)
    rw [lastSplit, ih fun hc => h (mem_cons_of_mem d hc)]
    exact if_neg hd

theorem lastSplit_append {back : List Char} (h : c ∉ back) (front : List Char) :
    lastSplit c (front ++ c :: back) = some (front, back) := by
  induction front with
  | nil =>
    rw [nil_append, lastSplit, lastSplit_eq_none h]
    exact if_pos rfl
  | cons d ds ih => rw [cons_append, lastSplit, ih]

/-- `net.JoinHostPort`. -/
def joinHostPort (host port : String) : String :=
  if ':' ∈ host.toList then "[" ++ host ++ "]:" ++ port else host ++ ":" ++ port

/-- `net.SplitHostPort`; nothing for an error. -/
def splitHostPort (hostport : String) : Option (String × String) :=
  match lastSplit ':' hostport.toList with
  | none => none
  | some (front, port) =>
    match hostport.toList with
    | '[' :: rest =>
      let host := rest.takeWhile (· ≠ ']')
      -- the bracket that closes must be there and stand right before the last colon
      if front = '[' :: host ++ [']'] ∧ '[' ∉ rest ∧ ']' ∉ port then
        some (String.ofList host, String.ofList port)
      else none
    | cs =>
      if ':' ∈ front ∨ '[' ∈ cs ∨ ']' ∈ cs then none
      else some (String.ofList front, String.ofList port)

/-- `validOptionalPort`, behind the colon. -/
def validPort (port : List Char) : Bool := port.all Char.isDigit

/-- A host without the brackets around it. -/
def unbracket : List Char → List Char
  | '[' :: rest => if rest.getLast? = some ']' then rest.dropLast else '[' :: rest
  | cs => cs

/-- `Hostname` and `Port` of a URL with this host. -/
def urlHost (host : String) : String × String :=
  match lastSplit ':' host.toList with
  | some (front, port) =>
    if validPort port then (String.ofList (unbracket front), String.ofList port)
    else (String.ofList (unbracket host.toList), "")
  | none => (String.ofList (unbracket host.toList), "")

/-- `portMap`. -/
def schemePort (scheme : String) : String :=
  if scheme = "http" then "80" else if scheme = "https" then "443" else ""

def isASCII (s : String) : Bool := s.toList.all (·.toNat < 0x80)

/-- `canonicalAddr`: the address a transport dials for a URL with this scheme and host. `toASCII` is
the form IDNA gives a name that is not ASCII. -/
def canonicalAddr (toASCII : String → String) (scheme host : String) : String :=
  let (name, port) := urlHost host
  joinHostPort (if isASCII name then name else toASCII name)
    (if port = "" then schemePort scheme else port)

theorem unbracket_brackets (host : List Char) : unbracket ('[' :: host ++ [']']) = host := by
  simp [unbracket]

/-- The last colon of a destination stands before its port. -/
theorem lastSplit_joinHostPort (hport : validPort port.toList) :
    lastSplit ':' (joinHostPort host port).toList =
      some (if ':' ∈ host.toList then '[' :: host.toList ++ [']'] else host.toList,
        port.toList) := by
  have hcolon : ':' ∉ port.toList := fun hmem =>
    absurd (all_eq_true.mp hport ':' hmem) (by decide)
  unfold joinHostPort
  split
  · have hlist : ("[" ++ host ++ "]:" ++ port).toList =
        ('[' :: host.toList ++ [']']) ++ ':' :: port.toList := by
      simp [String.toList_append]
    rw [hlist, lastSplit_append hcolon]
  · have hlist : (host ++ ":" ++ port).toList = host.toList ++ ':' :: port.toList := by
      simp [String.toList_append]
    rw [hlist, lastSplit_append hcolon]

theorem urlHost_joinHostPort (hport : validPort port.toList)
    (hhost : unbracket host.toList = host.toList) :
    urlHost (joinHostPort host port) = (host, port) := by
  rw [urlHost, lastSplit_joinHostPort hport]
  simp only [hport, if_true]
  split
  · rw [unbracket_brackets, String.ofList_toList, String.ofList_toList]
  · rw [hhost, String.ofList_toList, String.ofList_toList]

theorem joinHostPort_inj {host' port' : String} (hport : validPort port.toList)
    (hport' : validPort port'.toList) (h : joinHostPort host port = joinHostPort host' port') :
    host = host' ∧ port = port' := by
  have hsplit := @lastSplit_joinHostPort host _ hport
  rw [h, lastSplit_joinHostPort hport', Option.some.injEq, Prod.mk.injEq] at hsplit
  obtain ⟨hhost, hports⟩ := hsplit
  refine ⟨String.toList_inj.mp ?_, String.toList_inj.mp hports.symm⟩
  -- only a host with a colon is in brackets
  split at hhost <;> split at hhost
  · exact (append_cancel_right (cons.inj hhost).2).symm
  · rename_i hcolon hnot
    rw [← hhost] at hnot
    simp [hcolon] at hnot
  · rename_i hnot hcolon
    rw [hhost] at hnot
    simp [hcolon] at hnot
  · exact hhost.symm

/-- **Names of a transport.** A destination is dialled under its own name when its port is written
out and its host is ASCII, without brackets of its own. -/
theorem canonicalAddr_joinHostPort {toASCII : String → String} {scheme : String}
    (hport : validPort port.toList) (hne : port ≠ "") (hascii : isASCII host)
    (hhost : unbracket host.toList = host.toList) :
    canonicalAddr toASCII scheme (joinHostPort host port) = joinHostPort host port := by
  simp [canonicalAddr, urlHost_joinHostPort hport hhost, hascii, if_neg hne]

end Zanskar.Go
