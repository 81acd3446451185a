import Zanskar.Go.Net

/-!
# Parts of the address space (`internal/ipspace`)

`Reserved` says in words what special-purpose space an address is in, and nothing for a public one.
Its tests come in an order: what is a metadata service is said before what is private, so that
neither answer the relay lets through, public or private, is ever given to a loopback, link-local or
metadata address (`reserved_reachable`).
-/

namespace Zanskar.Ipspace

open Go

/-- An IPv6 address: its front, zeros, its back. -/
def ipv6 (front back : IP) : IP :=
  front ++ List.replicate (16 - front.length - back.length) 0 ++ back

/-- `Metadata`. -/
def metadata : List IP :=
  [ipv6 [0xfd, 0x00, 0x0e, 0xc2] [0x02, 0x54], ipv6 [0xfd, 0x00, 0x0e, 0xc2] [0x00, 0x23],
    ipv4 100 100 100 200, ipv4 168 63 129 16, ipv4 192 0 0 192]

/-- `IsMetadata`. -/
def isMetadata (ip : IP) : Bool := metadata.any (ipEqual ip)

/-- `reserved`: the ranges the tests of `net.IP` do not cover. -/
def reservedNets : List (IPNet × String) :=
  [(⟨[0, 0, 0, 0], 8⟩, "this network"),
    (⟨[100, 64, 0, 0], 10⟩, "shared address space (carrier-grade NAT)"),
    (⟨[192, 0, 0, 0], 24⟩, "IETF protocol assignments"),
    (⟨[192, 0, 2, 0], 24⟩, "documentation"),
    (⟨[198, 51, 100, 0], 24⟩, "documentation"),
    (⟨[203, 0, 113, 0], 24⟩, "documentation"),
    (⟨[198, 18, 0, 0], 15⟩, "benchmarking"),
    (⟨[240, 0, 0, 0], 4⟩, "reserved"),
    (⟨ipv6 [0x20, 0x01, 0x0d, 0xb8] [], 32⟩, "documentation"),
    (⟨ipv6 [0x00, 0x64, 0xff, 0x9b] [], 96⟩, "NAT64"),
    (⟨ipv6 [0x00, 0x64, 0xff, 0x9b, 0x00, 0x01] [], 48⟩, "local NAT64"),
    (⟨ipv6 [0x20, 0x02] [], 16⟩, "6to4"),
    (⟨ipv6 [0x20, 0x01] [], 32⟩, "Teredo"),
    (⟨ipv6 [0xfe, 0xc0] [], 10⟩, "site-local"),
    (⟨ipv6 [0x01, 0x00] [], 64⟩, "discard")]

/-- `Reserved`. -/
def reserved (ip : IP) : String :=
  if ip = [] then "not an address"
  else if isUnspecified ip then "unspecified"
  else if isLoopback ip then "loopback"
  else if isLinkLocalUnicast ip || isLinkLocalMulticast ip then "link-local"
  else if isMulticast ip then "multicast"
  else if isMetadata ip then "a cloud metadata service"
  else if isPrivate ip then "private"
  else if ipEqual ip (ipv4 255 255 255 255) then "broadcast"
  else ((reservedNets.find? fun r => r.1.contains ip).map Prod.snd).getD ""

/-- Addresses of the relay's own machine or network, or of what runs it. -/
def Inner (ip : IP) : Prop :=
  isUnspecified ip = true ∨ isLoopback ip = true ∨ isLinkLocalUnicast ip = true ∨
    isLinkLocalMulticast ip = true ∨ isMetadata ip = true

theorem reserved_reachable {ip : IP} (h : reserved ip = "" ∨ reserved ip = "private") :
    ¬Inner ip := by
  unfold reserved at h
  split at h
  · rcases h with h | h <;> exact absurd h (by decide)
  split at h
  · rcases h with h | h <;> exact absurd h (by decide)
  rename_i hunspecified
  split at h
  · rcases h with h | h <;> exact absurd h (by decide)
  rename_i hloopback
  split at h
  · rcases h with h | h <;> exact absurd h (by decide)
  rename_i hlinkLocal
  split at h
  · rcases h with h | h <;> exact absurd h (by decide)
  split at h
  · rcases h with h | h <;> exact absurd h (by decide)
  rename_i hmetadata
  rw [Bool.or_eq_true, not_or] at hlinkLocal
  rintro (hin | hin | hin | hin | hin)
  · exact hunspecified hin
  · exact hloopback hin
  · exact hlinkLocal.1 hin
  · exact hlinkLocal.2 hin
  · exact hmetadata hin

-- an IPv4 address is seen through its IPv6 form, and metadata is said before private
example : reserved (ipv4 10 0 0 1) = "private" ∧ reserved [127, 0, 0, 1] = "loopback" ∧
    reserved (ipv4 169 254 169 254) = "link-local" ∧
    reserved (ipv6 [0xfd, 0x00, 0x0e, 0xc2] [0x02, 0x54]) = "a cloud metadata service" ∧
    reserved (ipv6 [0x00, 0x64, 0xff, 0x9b] [127, 0, 0, 1]) = "NAT64" ∧
    reserved [93, 184, 216, 34] = "" := by
  decide +kernel

end Zanskar.Ipspace
