import Zanskar.Go.Io
import Zanskar.Go.Strconv

/-!
# The MySQL relay (`internal/gateway/mysqlrelay/relay.go`)

Once both handshakes are done, the relay copies the client's packets to the database
and looks at the first byte of each command: `COM_CHANGE_USER` is answered with an
error, since it would let the client try credentials. A packet has a length of three
bytes and a number of one. A command is one packet, or several when each but the last
is as long as a packet can be. The relay takes a packet numbered 0 for the first of a
command. The client chooses the numbers, and they wrap at 256.

- `relayCommands_packets` : what the relay does with a stream of packets, however it is
  split into reads;
- `relay_passes_whole_packets` : and with any bytes;
- `relay_refuses_change_user_only` : which streams lose the re-authentications and
  nothing else.
-/

namespace Zanskar.Gateway.Mysql

open Go List

/-- `mysql.COM_CHANGE_USER`. -/
def comChangeUser : UInt8 := 0x11

/-- `mysql.ER_NOT_SUPPORTED_YET`. -/
def erNotSupportedYet : Nat := 1235

/-- The longest payload of a packet; one this long is continued in the next. -/
def maxPayload : Nat := 0xFFFFFF

/-- The three bytes of a length, the lowest first. -/
def length3 (n : Nat) : Bytes := [n.toUInt8, (n / 256).toUInt8, (n / 65536).toUInt8]

/-- `writeErr`: an error packet. -/
def writeErr (seq : UInt8) (code : Nat) (msg : Bytes) : Bytes :=
  let body := 0xFF :: code.toUInt8 :: (code / 256).toUInt8 :: ascii '#' :: lit "HY000" ++ msg
  length3 body.length ++ seq :: body

/-- The answer to a re-authentication. -/
def refusal : Bytes :=
  writeErr 1 erNotSupportedYet (lit "re-authentication is not available through the gateway")

/-- What the relay has written: to the database, and to the client. -/
structure Relayed where
  upstream : Bytes
  answers : Bytes

/-- The loop of `relayCommands` over the reads of the client's connection. A pass takes
four bytes at least. -/
def relayFrom : Nat → List Bytes → Relayed
  | 0, _ => ⟨[], []⟩
  | fuel + 1, src =>
    match readFull 4 src with
    | some ([l₀, l₁, l₂, seq], src) =>
      let n := l₀.toNat + l₁.toNat * 256 + l₂.toNat * 65536
      match readFull n src with
      | none => ⟨[], []⟩
      | some (payload, src) =>
        let rest := relayFrom fuel src
        if seq = 0 ∧ payload.head? = some comChangeUser then
          { rest with answers := refusal ++ rest.answers }
        else
          { rest with upstream := [l₀, l₁, l₂, seq] ++ payload ++ rest.upstream }
    | _ => ⟨[], []⟩

/-- `relayCommands`: until the client's connection ends. -/
def relayCommands (src : List Bytes) : Relayed := relayFrom src.flatten.length src

/-! ## Packets -/

/-- A packet: its number and its payload. -/
structure Packet where
  seq : UInt8
  payload : Bytes
  fits : payload.length ≤ maxPayload

/-- A packet on the wire. -/
def Packet.bytes (p : Packet) : Bytes := length3 p.payload.length ++ p.seq :: p.payload

/-- A stream of packets. -/
def wire (ps : List Packet) : Bytes := ps.flatMap Packet.bytes

/-- The test of the relay. -/
def Packet.refused (p : Packet) : Bool :=
  p.seq = 0 && p.payload.head? = some comChangeUser

theorem Packet.refused_iff (p : Packet) :
    p.refused ↔ p.seq = 0 ∧ p.payload.head? = some comChangeUser := by
  rw [Packet.refused, Bool.and_eq_true, decide_eq_true_eq, decide_eq_true_eq]

theorem length3_value {n : Nat} (h : n ≤ maxPayload) :
    n.toUInt8.toNat + (n / 256).toUInt8.toNat * 256 + (n / 65536).toUInt8.toNat * 65536 = n := by
  have h₀ : n.toUInt8.toNat = n % 256 := rfl
  have h₁ : (n / 256).toUInt8.toNat = n / 256 % 256 := rfl
  have h₂ : (n / 65536).toUInt8.toNat = n / 65536 % 256 := rfl
  rw [h₀, h₁, h₂]
  unfold maxPayload at h
  omega

theorem length_wire (ps : List Packet) : ps.length ≤ (wire ps).length := by
  induction ps with
  | nil => exact Nat.le_refl _
  | cons p ps ih =>
    have hcons : wire (p :: ps) = p.bytes ++ wire ps := rfl
    rw [hcons, length_append, length_cons]
    simp only [Packet.bytes, length3, length_append, length_cons]
    omega

variable {src : List Bytes} {ps : List Packet} {cs : List (List Packet)}

/-- No packet stands at the front. -/
def Cut (rest : Bytes) : Prop := ∀ (p : Packet) (t : Bytes), rest ≠ p.bytes ++ t

theorem cut_nil : Cut [] := fun p t h => by simp [Packet.bytes, length3] at h

/-- Every stream is packets, and then less than one. -/
theorem exists_packets (s : Bytes) : ∃ ps rest, s = wire ps ++ rest ∧ Cut rest := by
  induction hn : s.length using Nat.strong_induction_on generalizing s with
  | _ n ih =>
    by_cases hcut : Cut s
    · exact ⟨[], s, rfl, hcut⟩
    · simp only [Cut, not_forall, not_not] at hcut
      obtain ⟨p, t, rfl⟩ := hcut
      have hlt : t.length < n := by
        simp only [← hn, Packet.bytes, length3, length_append, length_cons]
        omega
      obtain ⟨ps, rest, rfl, hrest⟩ := ih _ hlt t rfl
      exact ⟨p :: ps, rest, by simp [wire], hrest⟩

/-- Of less than a packet the relay writes nothing. -/
theorem relayFrom_cut (hcut : Cut src.flatten) (fuel : Nat) : relayFrom fuel src = ⟨[], []⟩ := by
  cases fuel with
  | zero => rfl
  | succ fuel =>
    rw [relayFrom]
    split
    · rename_i l₀ l₁ l₂ seq src₁ hread
      obtain ⟨-, hflat⟩ := of_readFull hread
      dsimp only
      split
      · rfl
      · rename_i payload src₂ hread₂
        obtain ⟨hlen, hflat₂⟩ := of_readFull hread₂
        have h₀ := l₀.toNat_lt
        have h₁ := l₁.toNat_lt
        have h₂ := l₂.toNat_lt
        refine absurd ?_ (hcut ⟨seq, payload, by unfold maxPayload; omega⟩ src₂.flatten)
        have hlength : length3 payload.length = [l₀, l₁, l₂] := by
          simp only [length3, hlen, cons.injEq, ← UInt8.toNat_inj, Nat.toUInt8, UInt8.toNat_ofNat',
            and_true]
          omega
        simp only [hflat, hflat₂, Packet.bytes, hlength, cons_append, nil_append]
    · rfl

/-- **What the relay does with packets**, however the stream is split into reads: those
it refuses are answered, and the others go upstream as they came. -/
theorem relayFrom_packets {rest : Bytes} (hrest : Cut rest) {fuel : Nat} (hfuel : ps.length ≤ fuel)
    (hsrc : src.flatten = wire ps ++ rest) :
    relayFrom fuel src =
      ⟨wire (ps.filter (!·.refused)), (ps.filter Packet.refused).flatMap fun _ => refusal⟩ := by
  induction ps generalizing fuel src with
  | nil => exact relayFrom_cut (hsrc ▸ hrest) fuel
  | cons p ps ih =>
    obtain _ | fuel := fuel
    · simp at hfuel
    obtain ⟨hdr, hhdr⟩ : ∃ hdr, hdr = length3 p.payload.length ++ [p.seq] := ⟨_, rfl⟩
    have hsplit : src.flatten = hdr ++ (p.payload ++ (wire ps ++ rest)) := by
      rw [hsrc, hhdr]
      simp [wire, Packet.bytes]
    obtain ⟨src₁, hread, hflat⟩ := readFull_of_flatten hsplit
    obtain ⟨src₂, hread₂, hflat₂⟩ := readFull_of_flatten hflat
    have hrest := ih (Nat.le_of_succ_le_succ hfuel) hflat₂
    subst hhdr
    rw [relayFrom, show (4 : Nat) = (length3 p.payload.length ++ [p.seq]).length from rfl, hread]
    simp only [length3, cons_append, nil_append]
    rw [length3_value p.fits, hread₂]
    dsimp only
    rw [hrest]
    by_cases hrefused : p.seq = 0 ∧ p.payload.head? = some comChangeUser
    · have htrue := p.refused_iff.mpr hrefused
      rw [if_pos hrefused, filter_cons_of_neg (by simp [htrue]), filter_cons_of_pos htrue]
      rfl
    · have hfalse : p.refused = false := Bool.not_eq_true _ ▸ fun h => hrefused (p.refused_iff.mp h)
      rw [if_neg hrefused, filter_cons_of_pos (by simp [hfalse]),
        filter_cons_of_neg (by simp [hfalse])]
      simp [wire, Packet.bytes, length3]

theorem relayCommands_packets (hsrc : src.flatten = wire ps) :
    relayCommands src =
      ⟨wire (ps.filter (!·.refused)), (ps.filter Packet.refused).flatMap fun _ => refusal⟩ := by
  refine relayFrom_packets cut_nil ?_ (hsrc.trans (append_nil _).symm)
  rw [hsrc]
  exact length_wire ps

/-- **Any stream.** Whatever the client sends, in whatever reads, is packets and then less than one;
the relay refuses or passes on the packets one by one, and writes nothing of the rest. -/
theorem relay_passes_whole_packets (src : List Bytes) :
    ∃ ps rest, src.flatten = wire ps ++ rest ∧ Cut rest ∧
      relayCommands src =
        ⟨wire (ps.filter (!·.refused)), (ps.filter Packet.refused).flatMap fun _ => refusal⟩ := by
  obtain ⟨ps, rest, hsrc, hrest⟩ := exists_packets src.flatten
  refine ⟨ps, rest, hsrc, hrest, relayFrom_packets hrest ?_ hsrc⟩
  have := length_wire ps
  rw [hsrc, length_append]
  omega

/-! ## Commands -/

/-- A packet whose payload is continued in the next. -/
def Packet.full (p : Packet) : Bool := p.payload.length = maxPayload

/-- The commands a stream of packets is read as. -/
def commands : List Packet → List (List Packet)
  | [] => []
  | p :: ps =>
    if p.full then
      match commands ps with
      | [] => [[p]]
      | c :: cs => (p :: c) :: cs
    else [p] :: commands ps

/-- A command that re-authenticates: the first byte of its first packet says which
command it is. -/
def changesUser (c : List Packet) : Bool :=
  (c.head?.bind fun p => p.payload.head?) = some comChangeUser

/-- What should go upstream: the packets of all other commands. -/
def admissible (ps : List Packet) : List Packet :=
  ((commands ps).filter (!changesUser ·)).flatten

theorem flatten_commands : (commands ps).flatten = ps := by
  induction ps with
  | nil => rfl
  | cons p ps ih =>
    rw [commands]
    split
    · split
      all_goals
        rename_i hcs
        rw [hcs] at ih
        rw [← ih]
        rfl
    · rw [flatten_cons, ih]
      rfl

/-- Packets put into commands: every command ends in a packet that is not continued,
but for the last, which may be cut short. -/
inductive Grouped : List (List Packet) → Prop
  | nil : Grouped []
  | cut {c : List Packet} (hne : c ≠ []) (hfull : ∀ p ∈ c, p.full = true) : Grouped [c]
  | cons {c : List Packet} {p : Packet} {cs : List (List Packet)}
      (hfull : ∀ p ∈ c, p.full = true) (hlast : p.full = false) (h : Grouped cs) :
      Grouped ((c ++ [p]) :: cs)

theorem grouped_commands : Grouped (commands ps) := by
  induction ps with
  | nil => exact .nil
  | cons p ps ih =>
    rw [commands]
    split
    · rename_i hfull
      have hcons : ∀ {c : List Packet}, (∀ q ∈ c, q.full) → ∀ q ∈ p :: c, q.full :=
        fun hc => forall_mem_cons.mpr ⟨hfull, hc⟩
      generalize commands ps = cs at ih
      cases ih with
      | nil => exact .cut (by simp) (hcons (by simp))
      | cut hne hc => exact .cut (by simp) (hcons hc)
      | cons hc hlast h => exact .cons (hcons hc) hlast h
    · rename_i hfull
      exact Grouped.cons (c := []) (by simp) (by simpa using hfull) ih

/-- Grouped packets are read as the commands they are grouped in. -/
theorem commands_of_grouped (h : Grouped cs) : commands cs.flatten = cs := by
  induction h with
  | nil => rfl
  | @cut c hne hfull =>
    rw [flatten_cons, flatten_nil, append_nil]
    induction c with
    | nil => exact absurd rfl hne
    | cons p c ih =>
      rw [commands, if_pos (hfull p mem_cons_self)]
      cases c with
      | nil => rfl
      | cons q c =>
        rw [ih (by simp) fun q' h' => hfull q' (mem_cons_of_mem p h')]
  | @cons c p cs hfull hlast _ ih =>
    rw [flatten_cons]
    induction c with
    | nil =>
      rw [nil_append, singleton_append, commands, if_neg (by simp [hlast]), ih]
    | cons q c ihc =>
      rw [cons_append, cons_append, commands, if_pos (hfull q mem_cons_self),
        ihc fun q' h' => hfull q' (mem_cons_of_mem q h')]

theorem grouped_filter (h : Grouped cs) (keep : List Packet → Bool) : Grouped (cs.filter keep) := by
  induction h with
  | nil => exact .nil
  | @cut c hne hfull =>
    rw [filter_cons]
    split
    · exact .cut hne hfull
    · exact .nil
  | cons hfull hlast _ ih =>
    rw [filter_cons]
    split
    · exact .cons hfull hlast ih
    · exact ih

/-- What should go upstream is read as the other commands. -/
theorem commands_admissible : commands (admissible ps) = (commands ps).filter (!changesUser ·) :=
  commands_of_grouped (grouped_filter grouped_commands _)

/-! ## Refusals and commands -/

section Sorting

variable {α : Type} (d : α → Bool) (D : List α → Bool) {cs : List (List α)}

theorem filter_not_eq_self {c : List α} (h : ∀ x ∈ c, d x = false) : c.filter (!d ·) = c :=
  filter_eq_self.mpr fun x hx => by simp [h x hx]

/-- Lists that are the same one after another, and no shorter one by one, are the same. -/
theorem eq_of_flatMap_eq {F G : List α → List α} (hle : ∀ c ∈ cs, (G c).length ≤ (F c).length)
    (h : cs.flatMap F = cs.flatMap G) : ∀ c ∈ cs, F c = G c := by
  induction cs with
  | nil => exact forall_mem_nil _
  | cons c cs ih =>
    obtain ⟨hc, hcs⟩ := forall_mem_cons.mp hle
    have hrest : (cs.flatMap G).length ≤ (cs.flatMap F).length := by
      rw [length_flatMap, length_flatMap]
      exact sum_le_sum hcs
    rw [flatMap_cons, flatMap_cons] at h
    have hlen := congrArg length h
    rw [length_append, length_append] at hlen
    obtain ⟨hfirst, hothers⟩ := append_inj h (by omega)
    exact forall_mem_cons.mpr ⟨hfirst, ih hcs hothers⟩

/-- **Sorted out one by one, and by groups**: the same are left just when the test on
each agrees with the test on its group. -/
theorem filter_flatten_eq_iff (cs : List (List α)) :
    cs.flatten.filter (!d ·) = (cs.filter (!D ·)).flatten ↔ ∀ c ∈ cs, ∀ x ∈ c, d x = D c := by
  -- what is left of a group, by either test
  have hgroup : ∀ c : List α, c.filter (!d ·) = (if D c then [] else c) ↔ ∀ x ∈ c, d x = D c := by
    intro c
    cases D c <;> simp
  have hgroups : (cs.filter (!D ·)).flatten = cs.flatMap fun c => if D c then [] else c := by
    induction cs with
    | nil => rfl
    | cons c cs ih => cases hD : D c <;> simp [hD, ih]
  rw [filter_flatten, ← flatMap_def, hgroups]
  simp only [← hgroup]
  refine ⟨fun h => eq_of_flatMap_eq (fun c hc => ?_) h, flatMap_congr⟩
  split
  · exact Nat.zero_le _
  · -- nothing a group keeps is sorted out
    rename_i hD
    refine (congrArg length (filter_not_eq_self d fun x hx => ?_)).ge
    have hmem : x ∈ cs.flatMap fun c => if D c then [] else c :=
      mem_flatMap.mpr ⟨c, hc, by rwa [if_neg hD]⟩
    rw [← h] at hmem
    obtain ⟨c', -, hx'⟩ := mem_flatMap.mp hmem
    simpa using (mem_filter.mp hx').2

end Sorting

/-! ## What goes upstream -/

variable {p q : Packet}

theorem Packet.ext (hseq : p.seq = q.seq) (hpayload : p.payload = q.payload) : p = q := by
  obtain ⟨seq, payload, fits⟩ := p
  obtain ⟨seq', payload', fits'⟩ := q
  dsimp only at hseq hpayload
  subst hseq hpayload
  rfl

theorem Packet.bytes_append_inj {s t : Bytes} (h : p.bytes ++ s = q.bytes ++ t) :
    p = q ∧ s = t := by
  simp only [Packet.bytes, length3, cons_append, nil_append, cons.injEq] at h
  obtain ⟨h₀, h₁, h₂, hseq, hrest⟩ := h
  have hlen : p.payload.length = q.payload.length := by
    rw [← length3_value p.fits, ← length3_value q.fits, h₀, h₁, h₂]
  obtain ⟨hpayload, hst⟩ := append_inj hrest hlen
  exact ⟨Packet.ext hseq hpayload, hst⟩

theorem wire_injective {qs : List Packet} (h : wire ps = wire qs) : ps = qs := by
  induction ps generalizing qs with
  | nil =>
    cases qs with
    | nil => rfl
    | cons q qs => simp [wire, Packet.bytes, length3] at h
  | cons p ps ih =>
    cases qs with
    | nil => simp [wire, Packet.bytes, length3] at h
    | cons q qs =>
      obtain ⟨rfl, hrest⟩ := Packet.bytes_append_inj (s := wire ps) (t := wire qs) h
      rw [ih hrest]

/-- **Re-authentications are refused, and nothing else.** For every stream of packets of
the client, split into reads in any way: the database reads no `COM_CHANGE_USER` and gets
every packet of the other commands, in order and as it came, if and only if the packets
that are numbered 0 and begin with the byte of `COM_CHANGE_USER` are those of the
`COM_CHANGE_USER` commands. -/
theorem relay_refuses_change_user_only {ps : List Packet} {src : List Bytes}
    (hsrc : src.flatten = wire ps) :
    ((∀ qs, (relayCommands src).upstream = wire qs → ∀ c ∈ commands qs, changesUser c = false) ∧
        (relayCommands src).upstream = wire (admissible ps)) ↔
      ∀ c ∈ commands ps, ∀ p ∈ c,
        (p.seq = 0 ∧ p.payload.head? = some comChangeUser ↔ changesUser c = true) := by
  have hup : (relayCommands src).upstream = wire (ps.filter (!·.refused)) := by
    rw [relayCommands_packets hsrc]
  have hagree : (∀ c ∈ commands ps, ∀ p ∈ c, p.refused = changesUser c) ↔
      ps.filter (!·.refused) = admissible ps := by
    have := filter_flatten_eq_iff Packet.refused changesUser (commands ps)
    rw [flatten_commands] at this
    exact this.symm
  have hrefused : (∀ c ∈ commands ps, ∀ p ∈ c,
      (p.seq = 0 ∧ p.payload.head? = some comChangeUser ↔ changesUser c)) ↔
      ∀ c ∈ commands ps, ∀ p ∈ c, p.refused = changesUser c := by
    refine forall₂_congr fun c _ => forall₂_congr fun p _ => ?_
    rw [← p.refused_iff]
    exact Bool.eq_iff_iff.symm
  rw [hrefused, hagree, hup]
  constructor
  · rintro ⟨-, h⟩
    exact wire_injective h
  · intro h
    rw [h]
    refine ⟨fun qs hqs c hc => ?_, rfl⟩
    rw [← wire_injective hqs, commands_admissible] at hc
    simpa using (mem_filter.mp hc).2

/-- A query, a re-authentication and a quit, with the first packet split in two. -/
theorem reauthentication_between_commands :
    (relayCommands [[1, 0], [0, 0, 3, 2, 0, 0, 0, 0x11, 0x61, 1, 0, 0, 0, 1]]).upstream =
      [1, 0, 0, 0, 3, 1, 0, 0, 0, 1] := by
  have hsrc : [[1, 0], [0, 0, 3, 2, 0, 0, 0, 0x11, 0x61, 1, 0, 0, 0, 1]].flatten =
      wire [⟨0, [3], by decide⟩, ⟨0, [0x11, 0x61], by decide⟩, ⟨0, [1], by decide⟩] := by decide
  exact ((relay_refuses_change_user_only hsrc).mpr (by decide)).2

/-- A packet of a long query, as long as a packet can be. -/
def longQuery (seq : UInt8) : Packet where
  seq := seq
  payload := 3 :: replicate (maxPayload - 1) 0x20
  fits := by rw [length_cons, length_replicate]; decide

/-- The numbers mislead the relay both ways. A re-authentication numbered 1 goes upstream.
And of a query that is continued over 257 packets, numbered in order, the last is numbered
0 again: it begins with the byte of `COM_CHANGE_USER`, and is dropped. -/
theorem numbers_mislead_relay :
    (∃ p : Packet, changesUser [p] = true ∧
      (relayCommands [p.bytes]).upstream = wire [p]) ∧
    ∃ ps : List Packet, ps.map Packet.seq = (range 257).map Nat.toUInt8 ∧
      commands ps = [ps] ∧ changesUser ps = false ∧ admissible ps = ps ∧
      (relayCommands [wire ps]).upstream = wire ps.dropLast := by
  refine ⟨⟨⟨1, [0x11], by decide⟩, by decide, by decide⟩, ?_⟩
  obtain ⟨queries, hqueries⟩ : ∃ queries, queries = (range 256).map fun i =>
      longQuery i.toUInt8 := ⟨_, rfl⟩
  obtain ⟨last, hlast⟩ : ∃ last : Packet, last = ⟨0, [0x11], by decide⟩ := ⟨_, rfl⟩
  have hfull : ∀ p ∈ queries, p.full ∧ p.refused = false := by
    intro p hp
    rw [hqueries] at hp
    obtain ⟨i, -, rfl⟩ := mem_map.mp hp
    refine ⟨?_, ?_⟩
    · rw [Packet.full, decide_eq_true_eq, longQuery, length_cons, length_replicate]
      decide
    · simp [Packet.refused, longQuery, comChangeUser]
  have hcommands : commands (queries ++ [last]) = [queries ++ [last]] := by
    have hgrouped : Grouped [queries ++ [last]] :=
      .cons (fun p hp => (hfull p hp).1) (by rw [hlast]; decide) .nil
    simpa using commands_of_grouped hgrouped
  have hquery : changesUser (queries ++ [last]) = false := by
    rw [hqueries, show (256 : Nat) = 255 + 1 from rfl, range_succ_eq_map, map_cons, cons_append]
    simp [changesUser, longQuery, comChangeUser]
  have hadmissible : admissible (queries ++ [last]) = queries ++ [last] := by
    rw [admissible, hcommands, filter_cons_of_pos (by simp [hquery])]
    simp
  refine ⟨queries ++ [last], ?_, hcommands, hquery, hadmissible, ?_⟩
  · have hseq : (Packet.seq ∘ fun i : Nat => longQuery i.toUInt8) = Nat.toUInt8 := rfl
    have hrange : range 257 = range 256 ++ [256] := range_succ
    have hwrap : [last].map Packet.seq = [256].map Nat.toUInt8 := by
      rw [hlast]
      decide
    rw [map_append, hqueries, map_map, hseq, hrange, map_append, hwrap]
  · have hsrc : [wire (queries ++ [last])].flatten = wire (queries ++ [last]) := by simp
    have hdropped : [last].filter (!·.refused) = [] := by
      rw [hlast]
      decide
    rw [relayCommands_packets hsrc, dropLast_concat, filter_append, hdropped,
      append_nil, filter_not_eq_self Packet.refused fun p hp => (hfull p hp).2]

end Zanskar.Gateway.Mysql
