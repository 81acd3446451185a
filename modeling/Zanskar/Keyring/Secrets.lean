import Zanskar.Keyring.Versions
import Zanskar.Lib.Machine
import Zanskar.Lib.Pieces

/-!
# No secret is lost

One ring over its life: it encrypts secrets, rotates its data key, is rewrapped
under new master keys, and is closed and opened again. Every ciphertext it ever
produced is kept beside the state (`Secret`), and the ring opens all of them
(`secrets_survive`).

The invariant is in three layers: all versions are wrapped under the current master
key (`AllUnder`), the ring is a cache of the table (`Caches`) that holds the version
of every secret, and each secret is a ciphertext under the data key its version is.
No version is ever retired.
-/

namespace Zanskar

open Go Keyring Lib List

/-! ## Rows and secrets -/

/-- The name of a table of the schema. -/
abbrev TableName := { b : Bytes // ascii ':' ∉ b }

theorem aad_injective {table table' : TableName} {id id' : Bytes}
    (h : aad table.1 id = aad table'.1 id') : table = table' ∧ id = id' := by
  obtain ⟨htable, hid⟩ := append_cons_inj_of_not_mem table.2 table'.2 h
  exact ⟨Subtype.ext htable, hid⟩

/-- A ciphertext that was produced, with what it was produced from. -/
structure Secret where
  table : TableName
  id : Bytes
  plaintext : Bytes
  ciphertext : Bytes
  version : Nat

/-- The associated data of the secret's row. -/
def Secret.aad (c : Secret) : Bytes := Keyring.aad c.table.1 c.id

/-! ## The machine -/

structure RingState where
  versions : KeyVersions
  memory : Memory
  /-- The ring, while one is open. -/
  ring : Option Ring
  secrets : List Secret
  /-- The current master key, once there is a version. -/
  master : Option Key

/-- An empty table and no ring. -/
def RingState.init : RingState := ⟨Table.empty, [], none, [], none⟩

inductive RingLabel where
  /-- The ring, if any, is closed and one is opened with a master key. -/
  | reopen (kek : Key) (draw : Draw) (commits : Bool)
  | encrypt (table : TableName) (id : Bytes) (nonce : Option Nonce) (plaintext : Bytes)
  | rotate (draw : Draw) (commits loads : Bool)
  | rewrap (new : Key) (fate : Nat → Fate) (commits : Bool)
  /-- `Decrypt` reads the table again. -/
  | reload

/-- `Close`, as to the buffers. -/
def RingState.closed (s : RingState) : Memory :=
  match s.ring with
  | none => s.memory
  | some r => s.memory.zeroAll (r.deks.map Prod.snd)

section

variable (aead : Aead)

/-- One call. -/
def ringStep (s : RingState) : RingLabel → Option RingState
  | .reopen kek draw commits =>
    match openRing aead s.versions s.closed kek draw commits with
    | (tbl, m, .error _) => some { s with versions := tbl, memory := m, ring := none }
    | (tbl, m, .ok r) => some ⟨tbl, m, some r, s.secrets, some kek⟩
  | .encrypt table id nonce plaintext =>
    match s.ring with
    | none => none
    | some r =>
      match encrypt aead s.memory r (aad table.1 id) nonce plaintext with
      | .error _ => some s
      | .ok (ciphertext, version) =>
        some { s with secrets := ⟨table, id, plaintext, ciphertext, version⟩ :: s.secrets }
  | .rotate draw commits loads =>
    match s.ring with
    | none => none
    | some r =>
      match rotate aead s.versions s.memory r draw commits loads with
      | (tbl, m, r, _) => some { s with versions := tbl, memory := m, ring := some r }
  | .rewrap new fate commits =>
    match s.ring with
    | none => none
    | some r =>
      if r.closed then some s
      else
        match rewrap aead s.versions r.kek new fate commits with
        | (tbl, .error _) => some { s with versions := tbl }
        | (tbl, .ok _) =>
          some { s with versions := tbl, ring := some { r with kek := new }, master := some new }
  | .reload =>
    match s.ring with
    | none => none
    | some r =>
      match load aead s.versions s.memory r with
      | (m, .error _) => some { s with memory := m }
      | (m, .ok r) => some { s with memory := m, ring := some r }

end

variable {aead : Aead} {tbl tbl' : KeyVersions} {kek : Key} {m : Memory} {r : Ring}

/-! ## The table grows -/

/-- Every version in use stays, with its data key. -/
def Extends (aead : Aead) (kek kek' : Key) (tbl tbl' : KeyVersions) : Prop :=
  ∀ v ∈ live tbl, ∀ dek, WrappedUnder aead kek v dek →
    ∃ v' ∈ live tbl', v'.id = v.id ∧ WrappedUnder aead kek' v' dek

theorem extends_adds (h : Adds aead kek tbl tbl') : Extends aead kek kek tbl tbl' := by
  obtain ⟨v, dek, -, -, -, -, hrows⟩ := h
  intro w hw dek' hwrapped
  obtain ⟨hmem, hlive⟩ := mem_live.mp hw
  exact ⟨w, mem_live.mpr ⟨(hrows w).mpr (.inl hmem), hlive⟩, rfl, hwrapped⟩

theorem extends_rewrap {old new : Key}
    (hback : ∀ v' ∈ live tbl', ∃ v ∈ live tbl, Resealed aead old new v v')
    (hforth : ∀ v ∈ live tbl, ∃ v' ∈ live tbl', v'.id = v.id) : Extends aead old new tbl tbl' := by
  intro v hv dek hwrapped
  obtain ⟨v', hv', hid⟩ := hforth v hv
  obtain ⟨w, hw, hresealed⟩ := hback v' hv'
  obtain rfl := tbl.eq_of_key_eq (mem_live.mp hw).1 (mem_live.mp hv).1 (hresealed.1.symm.trans hid)
  exact ⟨v', hv', hid, hresealed.wrappedUnder hwrapped⟩

theorem Keyring.Caches.extend (h : Caches aead tbl m r) (hunder : AllUnder aead r.kek tbl)
    (hext : Extends aead r.kek kek tbl tbl') : Caches aead tbl' m { r with kek := kek } := by
  intro version a ha
  obtain ⟨dek, hdek, v, hv, hid, hunwrap⟩ := h version a ha
  obtain ⟨key, hwrapped⟩ := hunder v hv
  cases hwrapped.unwrapRow_eq.symm.trans hunwrap
  obtain ⟨v', hv', hid', hwrapped'⟩ := hext v hv key hwrapped
  exact ⟨key.1, hdek, v', hv', hid'.trans hid, hwrapped'.unwrapRow_eq⟩

/-! ## The invariant -/

/-- The secret is a ciphertext under the data key its version is. -/
def Secret.SealedIn (aead : Aead) (kek : Key) (tbl : KeyVersions) (c : Secret) : Prop :=
  ∃ v ∈ live tbl, v.id = c.version ∧ ∃ dek rand, WrappedUnder aead kek v dek ∧
    Crypto.encrypt aead dek.1 rand c.plaintext c.aad = .ok c.ciphertext

theorem Secret.SealedIn.extend {kek' : Key} {c : Secret}
    (h : c.SealedIn aead kek tbl) (hext : Extends aead kek kek' tbl tbl') :
    c.SealedIn aead kek' tbl' := by
  obtain ⟨v, hv, hid, dek, rand, hwrapped, hseal⟩ := h
  obtain ⟨v', hv', hid', hwrapped'⟩ := hext v hv dek hwrapped
  exact ⟨v', hv', hid'.trans hid, dek, rand, hwrapped', hseal⟩

/-- The ring can open every secret. -/
structure Serves (aead : Aead) (tbl : KeyVersions) (m : Memory) (secrets : List Secret)
    (r : Ring) : Prop where
  notClosed : r.closed = false
  under : AllUnder aead r.kek tbl
  caches : Caches aead tbl m r
  holds : ∀ c ∈ secrets, (r.deks.lookup c.version).isSome = true

structure RingState.Inv (aead : Aead) (s : RingState) : Prop where
  /-- No version is retired, and versions are counted from 1. -/
  rows : ∀ v ∈ s.versions.rows, v.retiredAt = none ∧ 0 < v.id
  under : live s.versions = [] ∧ s.secrets = [] ∨
    ∃ kek, s.master = some kek ∧ AllUnder aead kek s.versions ∧
      ∀ c ∈ s.secrets, c.SealedIn aead kek s.versions
  ring : ∀ r, s.ring = some r → s.master = some r.kek ∧
    (∀ c ∈ s.secrets, c.SealedIn aead r.kek s.versions) ∧
    Serves aead s.versions s.memory s.secrets r

theorem RingState.Inv.of_ring {s : RingState} (hring : s.ring = some r)
    (hrows : ∀ v ∈ s.versions.rows, v.retiredAt = none ∧ 0 < v.id) (hmaster : s.master = some r.kek)
    (hsealed : ∀ c ∈ s.secrets, c.SealedIn aead r.kek s.versions)
    (hserves : Serves aead s.versions s.memory s.secrets r) : s.Inv aead where
  rows := hrows
  under := .inr ⟨r.kek, hmaster, hserves.under, hsealed⟩
  ring r' hr' := by
    cases hring.symm.trans hr'
    exact ⟨hmaster, hsealed, hserves⟩

/-- A ring that is loaded serves all secrets of its table. -/
theorem serves_load {secrets : List Secret} (hclosed : r.closed = false)
    (hunder : AllUnder aead r.kek tbl) (hcaches : Caches aead tbl m r)
    (hsealed : ∀ c ∈ secrets, c.SealedIn aead r.kek tbl) :
    ∃ m' r', load aead tbl m r = (m', .ok r') ∧ r'.kek = r.kek ∧
      Serves aead tbl m' secrets r' ∧
      r'.active = ((live tbl).map KeyVersion.id).foldl max 0 := by
  obtain ⟨m', r', hload, hkek, hclosed', hcaches', hholds, hactive⟩ := load_ok hcaches hunder.unwraps
  refine ⟨m', r', hload, hkek, ⟨hclosed'.trans hclosed, hkek ▸ hunder, hcaches', ?_⟩, hactive⟩
  intro c hc
  obtain ⟨v, hv, hid, -⟩ := hsealed c hc
  exact hid ▸ hholds v hv

theorem rows_adds (h : Adds aead kek tbl tbl')
    (hrows : ∀ v ∈ tbl.rows, v.retiredAt = none ∧ 0 < v.id) :
    ∀ v ∈ tbl'.rows, v.retiredAt = none ∧ 0 < v.id := by
  obtain ⟨v, dek, -, hretired, hpos, -, hmem⟩ := h
  intro w hw
  rcases (hmem w).mp hw with hold | rfl
  · exact hrows w hold
  · exact ⟨hretired, hpos⟩

/-! ## Steps -/

section Steps

variable {s : RingState} {r : Ring} {m : Memory} {commits : Bool} {tbl : KeyVersions} {draw : Draw}
  {r' : Ring}

section Ring

variable (h : s.Inv aead) (hring : s.ring = some r)

include h hring

theorem RingState.Inv.encrypt {table : TableName} {id : Bytes} {nonce : Option Nonce}
    {plaintext ciphertext : Bytes} {version : Nat}
    (hencrypt : Keyring.encrypt aead s.memory r (aad table.1 id) nonce plaintext =
      .ok (ciphertext, version)) :
    RingState.Inv aead
      { s with secrets := ⟨table, id, plaintext, ciphertext, version⟩ :: s.secrets } := by
  obtain ⟨hmaster, hsealed, hserves⟩ := h.ring r hring
  unfold Keyring.encrypt at hencrypt
  rw [if_neg (by rw [hserves.notClosed]; decide)] at hencrypt
  split at hencrypt
  · cases hencrypt
  rename_i a ha
  split at hencrypt
  · cases hencrypt
  rename_i sealed hseal
  cases hencrypt
  -- the buffer of the active version has its data key
  obtain ⟨dek, hdek, v, hv, hid, hunwrap⟩ := hserves.caches r.active a ha
  obtain ⟨key, hwrapped⟩ := hserves.under v hv
  cases hwrapped.unwrapRow_eq.symm.trans hunwrap
  rw [getD_eq_getElem?_getD, hdek, Option.getD_some] at hseal
  refine .of_ring hring h.rows hmaster ?_ ⟨hserves.notClosed, hserves.under, hserves.caches, ?_⟩
  · rw [forall_mem_cons]
    exact ⟨⟨v, hv, hid, key, nonce, hwrapped, hseal⟩, hsealed⟩
  · rw [forall_mem_cons]
    exact ⟨by rw [ha]; rfl, hserves.holds⟩

/-- A version is added under the ring's master key, and the ring may be loaded. -/
theorem RingState.Inv.rotate {loads : Bool} {result : Except RingError Nat}
    (hrotate : Keyring.rotate aead s.versions s.memory r draw commits loads =
      (tbl, m, r', result)) :
    RingState.Inv aead { s with versions := tbl, memory := m, ring := some r' } := by
  obtain ⟨hmaster, hsealed, hserves⟩ := h.ring r hring
  unfold Keyring.rotate at hrotate
  rw [if_neg (by rw [hserves.notClosed]; decide)] at hrotate
  split at hrotate
  · rename_i hcreate
    cases hrotate
    rw [createVersion_error hcreate]
    exact .of_ring rfl h.rows hmaster hsealed hserves
  rename_i tbl₁ n hcreate
  rcases createVersion_ok hcreate with ⟨-, hfalse, -⟩ | ⟨-, hadds⟩
  · cases hfalse
  have hext := extends_adds hadds
  have hunder := hserves.under.adds hadds
  have hrows := rows_adds hadds h.rows
  have hsealed' : ∀ c ∈ s.secrets, c.SealedIn aead r.kek tbl₁ := fun c hc =>
    (hsealed c hc).extend hext
  have hcaches : Caches aead tbl₁ s.memory r := hserves.caches.extend hserves.under hext
  split at hrotate
  · cases hrotate
    exact .of_ring rfl hrows hmaster hsealed' ⟨hserves.notClosed, hunder, hcaches, hserves.holds⟩
  · obtain ⟨m₁, r₁, hload, hkek, hserves', -⟩ := serves_load hserves.notClosed hunder hcaches hsealed'
    rw [hload] at hrotate
    cases hrotate
    exact .of_ring rfl hrows (hkek ▸ hmaster) (hkek ▸ hsealed') hserves'

theorem RingState.Inv.rewrap {new : Key} {fate : Nat → Fate} {n : Nat}
    (hrewrap : Keyring.rewrap aead s.versions r.kek new fate commits = (tbl, .ok n)) :
    RingState.Inv aead
      { s with versions := tbl, ring := some { r with kek := new }, master := some new } := by
  obtain ⟨hmaster, hsealed, hserves⟩ := h.ring r hring
  obtain ⟨hback, hforth, hrows⟩ := rewrap_ok hrewrap
  have hext : Extends aead r.kek new s.versions tbl := extends_rewrap hback hforth
  have hunder : AllUnder aead new tbl := by
    intro v' hv'
    obtain ⟨v, hv, hresealed⟩ := hback v' hv'
    obtain ⟨dek, hwrapped⟩ := hserves.under v hv
    exact ⟨dek, hresealed.wrappedUnder hwrapped⟩
  refine .of_ring rfl (fun v' hv' => ?_) rfl (fun c hc => (hsealed c hc).extend hext)
    ⟨hserves.notClosed, hunder, hserves.caches.extend hserves.under hext, hserves.holds⟩
  obtain ⟨v, hv, hid, hretired⟩ := hrows v' hv'
  rw [hid, hretired]
  exact h.rows v hv

theorem RingState.Inv.reload
    (hload : load aead s.versions s.memory r = (m, .ok r')) :
    RingState.Inv aead { s with memory := m, ring := some r' } := by
  obtain ⟨hmaster, hsealed, hserves⟩ := h.ring r hring
  obtain ⟨m₁, r₁, hload₁, hkek, hserves', -⟩ :=
    serves_load hserves.notClosed hserves.under hserves.caches hsealed
  obtain ⟨rfl, hr⟩ := Prod.mk.inj (hload₁.symm.trans hload)
  cases hr
  exact .of_ring rfl h.rows (hkek ▸ hmaster) (hkek ▸ hsealed) hserves'

theorem RingState.Inv.load_ne_error {e : RingError} :
    load aead s.versions s.memory r ≠ (m, .error e) := by
  obtain ⟨-, hsealed, hserves⟩ := h.ring r hring
  obtain ⟨m₁, r₁, hload₁, -⟩ := serves_load hserves.notClosed hserves.under hserves.caches hsealed
  rw [hload₁]
  exact fun heq => nomatch (Prod.mk.inj heq).2

end Ring

/-- A master key with which the table loads is the current one. -/
theorem RingState.Inv.under_of_unwraps (h : s.Inv aead)
    (hall : ∀ v ∈ live s.versions, ∃ dek, unwrapRow aead kek v = .ok dek) :
    AllUnder aead kek s.versions ∧ ∀ c ∈ s.secrets, c.SealedIn aead kek s.versions := by
  rcases h.under with ⟨hnone, hsecrets⟩ | ⟨kek', -, hunder, hsealed⟩
  · simp [AllUnder, hnone, hsecrets]
  · have hsame : ∀ v ∈ live s.versions, kek = kek' := by
      intro v hv
      obtain ⟨dek, hdek⟩ := hall v hv
      obtain ⟨dek', hwrapped⟩ := hunder v hv
      exact hwrapped.eq_of_unwrapRow hdek
    constructor
    · intro v hv
      rw [hsame v hv]
      exact hunder v hv
    · intro c hc
      obtain ⟨v, hv, hrest⟩ := hsealed c hc
      rw [hsame v hv]
      exact ⟨v, hv, hrest⟩

theorem foldl_max_live_pos {v : KeyVersion} (hv : v ∈ live tbl)
    (hpos : 0 < v.id) : 0 < ((live tbl).map KeyVersion.id).foldl max 0 :=
  lt_foldl_max.mpr ⟨v.id, mem_map_of_mem hv, hpos⟩

theorem RingState.Inv.reopen {m₀ : Memory} {result : Except RingError Ring} (h : s.Inv aead)
    (hopen : openRing aead s.versions m₀ kek draw commits = (tbl, m, result)) :
    match result with
    | .error _ => RingState.Inv aead { s with versions := tbl, memory := m, ring := none }
    | .ok r => RingState.Inv aead ⟨tbl, m, some r, s.secrets, some kek⟩ := by
  have hfailed : ∀ m : Memory, RingState.Inv aead { s with memory := m, ring := none } := fun m =>
    ⟨h.rows, h.under, fun _ hr => nomatch hr⟩
  have hnew : ∀ tbl m, Caches aead tbl m ⟨kek, [], 0, false⟩ := fun _ _ _ _ hlookup =>
    nomatch hlookup
  unfold openRing at hopen
  split at hopen
  · cases hopen
    exact hfailed _
  rename_i m₁ r₁ hload
  obtain ⟨hunder, hsealed⟩ := h.under_of_unwraps (unwraps_of_load hload)
  obtain ⟨m₂, r₂, hload₂, hkek₂, hserves, hactive⟩ := serves_load (r := ⟨kek, [], 0, false⟩) rfl
    hunder (hnew _ m₀) hsealed
  have hkek : r₂.kek = kek := hkek₂
  obtain ⟨rfl, hr⟩ := Prod.mk.inj (hload₂.symm.trans hload)
  obtain rfl := Except.ok.inj hr
  split at hopen
  · -- there was no version: one is made
    rename_i hzero
    have hempty : s.versions.rows = [] := by
      by_contra hsome
      obtain ⟨v, hv⟩ := exists_mem_of_ne_nil _ hsome
      have hpos := foldl_max_live_pos (mem_live.mpr ⟨hv, (h.rows v hv).1⟩) (h.rows v hv).2
      rw [← hactive, hzero] at hpos
      exact absurd hpos (Nat.lt_irrefl 0)
    split at hopen <;> rename_i tbl₁ res hcreate
    · cases hopen
      obtain rfl := createVersion_error hcreate
      exact hfailed _
    · rcases createVersion_ok hcreate with ⟨-, -, hsome⟩ | ⟨-, hadds⟩
      · exact absurd hempty hsome
      have hext := extends_adds hadds
      have hsealed' : ∀ c ∈ s.secrets, c.SealedIn aead r₂.kek tbl₁ := fun c hc =>
        hkek ▸ (hsealed c hc).extend hext
      have hext₂ : Extends aead r₂.kek r₂.kek s.versions tbl₁ := hkek ▸ hext
      have hcaches : Caches aead tbl₁ m₂ r₂ := hserves.caches.extend hserves.under hext₂
      obtain ⟨m₃, r₃, hload₃, hkek₃, hserves₃, -⟩ := serves_load hserves.notClosed
        (hkek ▸ hunder.adds hadds) hcaches hsealed'
      rw [hload₃] at hopen
      cases hopen
      exact .of_ring rfl (rows_adds hadds h.rows) (by rw [hkek₃, hkek]) (hkek₃ ▸ hsealed') hserves₃
  · cases hopen
    exact .of_ring rfl h.rows (by rw [hkek]) (hkek ▸ hsealed) hserves

end Steps

theorem RingState.inv_init : RingState.init.Inv aead where
  rows _ hv := nomatch hv
  under := .inl ⟨rfl, rfl⟩
  ring _ hr := nomatch hr

/-- **One call.** -/
theorem ringStep_inv {s s' : RingState} {l : RingLabel} (h : s.Inv aead)
    (hstep : ringStep aead s l = some s') : s'.Inv aead := by
  cases l <;> simp only [ringStep] at hstep
  case reopen kek draw commits =>
    split at hstep <;> rename_i hopen <;> cases hstep <;> exact h.reopen hopen
  case encrypt table id nonce plaintext =>
    split at hstep
    · cases hstep
    rename_i r hring
    split at hstep <;> cases hstep
    · exact h
    · rename_i hencrypt
      exact h.encrypt hring hencrypt
  case rotate draw commits loads =>
    split at hstep
    · cases hstep
    rename_i r hring
    cases hstep
    exact h.rotate hring rfl
  case rewrap new fate commits =>
    split at hstep
    · cases hstep
    rename_i r hring
    split at hstep
    · cases hstep
      exact h
    split at hstep <;> rename_i tbl res hrewrap <;> cases hstep
    · rw [rewrap_error hrewrap]
      exact h
    · exact h.rewrap hring hrewrap
  case reload =>
    split at hstep
    · cases hstep
    rename_i r hring
    split at hstep <;> rename_i hload <;> cases hstep
    · exact absurd hload (h.load_ne_error hring)
    · exact h.reload hring hload

/-! ## What a ring that serves can open -/

variable {tbl : KeyVersions} {secrets : List Secret} {c : Secret}

/-- The data key of a secret's version, as the ring finds it. -/
theorem decryptHeld_eq (hserves : Serves aead tbl m secrets r) (hc : c ∈ secrets)
    (hsealed : c.SealedIn aead r.kek tbl) :
    ∃ dek rand, Crypto.encrypt aead dek rand c.plaintext c.aad = .ok c.ciphertext ∧
      ∀ aad, decryptHeld aead m r aad c.ciphertext c.version =
        match Crypto.decrypt aead dek c.ciphertext aad with
        | .error e => .error (.crypto e)
        | .ok plaintext => .ok plaintext := by
  obtain ⟨a, ha⟩ := Option.isSome_iff_exists.mp (hserves.holds c hc)
  obtain ⟨dek, hdek, v, hv, hid, hunwrap⟩ := hserves.caches c.version a ha
  obtain ⟨w, hw, hwid, key, rand, hwrapped, hseal⟩ := hsealed
  obtain rfl := tbl.eq_of_key_eq (mem_live.mp hv).1 (mem_live.mp hw).1 (hid.trans hwid.symm)
  cases hwrapped.unwrapRow_eq.symm.trans hunwrap
  refine ⟨key.1, rand, hseal, fun aad => ?_⟩
  rw [decryptHeld, if_neg (by rw [hserves.notClosed]; decide), ha]
  dsimp only
  rewrite [getD_eq_getElem?_getD, hdek, Option.getD_some]
  cases Crypto.decrypt aead key.1 c.ciphertext aad <;> rfl

/-- It opens the secret for its own row, and for no other. -/
theorem decrypt_of_serves (hserves : Serves aead tbl m secrets r) (hc : c ∈ secrets)
    (hsealed : c.SealedIn aead r.kek tbl) (mayReload : Bool) :
    decrypt aead tbl m r c.aad c.ciphertext c.version mayReload = (m, r, .ok c.plaintext) ∧
    ∀ (table : TableName) (id : Bytes), ¬(table = c.table ∧ id = c.id) →
      decrypt aead tbl m r (aad table.1 id) c.ciphertext c.version mayReload =
        (m, r, .error (.crypto .invalidCiphertext)) := by
  obtain ⟨dek, rand, hseal, hheld⟩ := decryptHeld_eq hserves hc hsealed
  constructor
  · rw [decrypt, hheld, Crypto.decrypt_encrypt hseal]
  · intro table id hother
    have hne : aad table.1 id ≠ c.aad := fun heq => hother (aad_injective heq)
    rw [decrypt, hheld, Crypto.decrypt_encrypt_other hseal hne]

theorem openRing_ok {v : KeyVersion} (hunder : AllUnder aead kek tbl)
    (hv : v ∈ live tbl) (hpos : 0 < v.id) (m : Memory) (draw : Draw) (commits : Bool) :
    ∃ m' r, openRing aead tbl m kek draw commits = (tbl, m', .ok r) := by
  have hnew : Caches aead tbl m ⟨kek, [], 0, false⟩ := fun _ _ hlookup => nomatch hlookup
  obtain ⟨m', r, hload, -, -, -, -, hactive⟩ := load_ok hnew hunder.unwraps
  refine ⟨m', r, ?_⟩
  rw [openRing, hload]
  dsimp only
  rw [if_neg]
  rw [hactive]
  exact (foldl_max_live_pos hv hpos).ne'

/-! ## Runs -/

/-- **No secret is lost.** After every sequence of calls: the ring opens every
ciphertext produced so far with its version, for its own row and for no other; the
current master key opens the ring again; a `Rewrap` that fails leaves the table, and
one that succeeds leaves every version with the data key it had. -/
theorem secrets_survive {ls : List RingLabel} {s : RingState}
    (h : Run (ringStep aead) .init ls s) :
    (∀ r, s.ring = some r → ∀ c ∈ s.secrets, ∀ mayReload,
      decrypt aead s.versions s.memory r c.aad c.ciphertext c.version mayReload =
        (s.memory, r, .ok c.plaintext) ∧
      ∀ (table : TableName) (id : Bytes), ¬(table = c.table ∧ id = c.id) →
        decrypt aead s.versions s.memory r (aad table.1 id) c.ciphertext c.version mayReload =
          (s.memory, r, .error (.crypto .invalidCiphertext))) ∧
    (live s.versions ≠ [] → ∃ kek, s.master = some kek ∧ ∀ m draw commits,
      ∃ m' r, openRing aead s.versions m kek draw commits = (s.versions, m', .ok r)) ∧
    ∀ r, s.ring = some r → ∀ new fate commits,
      (∀ tbl e, rewrap aead s.versions r.kek new fate commits = (tbl, .error e) →
        tbl = s.versions) ∧
      ∀ tbl n, rewrap aead s.versions r.kek new fate commits = (tbl, .ok n) →
        (∀ v ∈ live s.versions, ∃ dek, unwrapRow aead r.kek v = .ok dek ∧
          ∃ v' ∈ live tbl, v'.id = v.id ∧ unwrapRow aead new v' = .ok dek) ∧
        ∀ v' ∈ live tbl, ∃ v ∈ live s.versions, v.id = v'.id := by
  have hinv : s.Inv aead :=
    h.keeps (RingState.Inv aead) (fun _ _ _ _ => ringStep_inv) RingState.inv_init
  refine ⟨fun r hring c hc mayReload => ?_, fun hsome => ?_, fun r hring new fate commits => ?_⟩
  · obtain ⟨-, hsealed, hserves⟩ := hinv.ring r hring
    exact decrypt_of_serves hserves hc (hsealed c hc) mayReload
  · rcases hinv.under with ⟨hnone, -⟩ | ⟨kek, hmaster, hunder, -⟩
    · exact absurd hnone hsome
    · obtain ⟨v, hv⟩ := exists_mem_of_ne_nil _ hsome
      exact ⟨kek, hmaster, openRing_ok hunder hv (hinv.rows v (mem_live.mp hv).1).2⟩
  · obtain ⟨-, -, hserves⟩ := hinv.ring r hring
    refine ⟨fun tbl e => rewrap_error, fun tbl n hok => ?_⟩
    obtain ⟨hback, hforth, -⟩ := rewrap_ok hok
    -- every version in use was resealed, with its data key
    have hext : Extends aead r.kek new s.versions tbl := extends_rewrap hback hforth
    refine ⟨fun v hv => ?_, fun v' hv' => ?_⟩
    · obtain ⟨dek, hwrapped⟩ := hserves.under v hv
      obtain ⟨v', hv', hid, hwrapped'⟩ := hext v hv dek hwrapped
      exact ⟨dek.1, hwrapped.unwrapRow_eq, v', hv', hid, hwrapped'.unwrapRow_eq⟩
    · obtain ⟨v, hv, hresealed⟩ := hback v' hv'
      exact ⟨v, hv, hresealed.1.symm⟩

/-- A password encrypted under each of two versions, the ring rewrapped under another
master key and opened with it. -/
def twoPasswords : List RingLabel :=
  [.reopen (keyOf 1) (drawOf 7) true,
    .encrypt ⟨lit "credentials", by decide⟩ (lit "a:b") (some (nonceOf 3)) (lit "hunter2"),
    .rotate (drawOf 9) true true,
    .encrypt ⟨lit "credentials", by decide⟩ (lit "c") (some (nonceOf 4)) (lit "hunter3"),
    .rewrap (keyOf 2) (fateOf 8) true, .reopen (keyOf 2) (drawOf 5) true]

/-- Both are opened. -/
theorem two_passwords_survive :
    ∃ s, Run (ringStep .framed) .init twoPasswords s ∧
      s.secrets.map Secret.version = [2, 1] ∧ ∃ r, s.ring = some r ∧
        ∀ c ∈ s.secrets, decrypt .framed s.versions s.memory r c.aad c.ciphertext c.version false =
          (s.memory, r, .ok c.plaintext) := by
  refine Run.exists_of_decide (P := fun s =>
    s.secrets.map Secret.version = [2, 1] ∧ s.ring.isSome) (by decide +kernel)
    fun s hrun ⟨hversions, hsome⟩ => ⟨hversions, ?_⟩
  obtain ⟨r, hring⟩ := Option.isSome_iff_exists.mp hsome
  have hopens := (secrets_survive hrun).1 r hring
  exact ⟨r, hring, fun c hc => (hopens c hc false).1⟩

end Zanskar
