import Zanskar.Lib.Machine
import Zanskar.Protocol

/-!
# What is trusted of a target (`internal/target/repo.go`)

A target's row holds the SSH host key last seen and whether it is trusted, and for the RDP and the
WinRM listener the certificate that is pinned and one that waits for approval. `RecordProbe`,
`TrustHostKey` and `TrustCertificate` read the row and write it in two steps; `Update` is one
transaction. Calls of all of them on one target interleave here.

- `trust_is_kept` : where `RecordProbe` finds the trust columns as it read them when it writes, a
  trusted key is one approved at this address, and changes and pins stay;
- `stale_probe_writes_back` : without that, a probe in flight writes back what it read.
-/

namespace Zanskar.Trust

open Lib Option

/-! ## Rows -/

/-- `HostKeyStatus`. -/
inductive HostKeyStatus where
  | unknown
  | pending
  | trusted
  | changed
  deriving DecidableEq

/-- A listener's certificate: the fingerprint pinned, and one that waits. -/
structure Certificate where
  pinned : Option String
  waiting : Option String
  deriving DecidableEq

/-- The listeners whose certificates are pinned. -/
inductive Listener where
  | rdp
  | winrm
  deriving DecidableEq

/-- `Target`: the columns that the four calls read or that a probe writes. -/
structure Target where
  address : String
  capabilities : List Protocol
  hostKeyFingerprint : Option String
  hostKeyStatus : HostKeyStatus
  rdp : Certificate
  winrm : Certificate
  lastProbedAt : Option Int
  deriving DecidableEq

def Target.certificate (t : Target) : Listener → Certificate
  | .rdp => t.rdp
  | .winrm => t.winrm

def Target.setCertificate (t : Target) (c : Certificate) : Listener → Target
  | .rdp => { t with rdp := c }
  | .winrm => { t with winrm := c }

/-! ## `RecordProbe` -/

/-- `ProbeResult`: no fingerprint where nothing answered, or an empty one. -/
structure ProbeResult where
  sshHostKey : Option String
  tls : Option String
  winrmTLS : Option String
  capabilities : List Protocol
  probedAt : Int
  deriving DecidableEq

/-- A fingerprint a probe saw. -/
def seen (fingerprint : Option String) : Option String := fingerprint.filter (· ≠ "")

/-- `CertificateChange`. -/
structure CertificateChange where
  listener : Listener
  pinned : String
  seen : String

/-- `HostKeyChange`. -/
structure HostKeyChange where
  old : Option String
  new : Option String
  status : HostKeyStatus
  changed : Bool
  certificates : List CertificateChange

/-- `pinCertificate`. -/
def pinCertificate (c : Certificate) (fingerprint : String) (l : Listener) :
    Certificate × Option CertificateChange :=
  match c.pinned with
  | none => (⟨some fingerprint, none⟩, none)
  | some pinned =>
    if pinned = fingerprint then (⟨some pinned, none⟩, none)
    else if c.waiting = some fingerprint then (c, none)
    else (⟨some pinned, some fingerprint⟩, some ⟨l, pinned, fingerprint⟩)

/-- `pinCertificate`, if the listener answered with a certificate. -/
def pinSeen (c : Certificate) (fingerprint : Option String) (l : Listener) :
    Certificate × Option CertificateChange :=
  match seen fingerprint with
  | none => (c, none)
  | some fp => pinCertificate c fp l

/-- The state machine of the host key: the status after a key is seen. -/
def HostKeyStatus.advance (fingerprint : Option String) (key : String) :
    HostKeyStatus → HostKeyStatus
  | .unknown | .pending => .pending
  | .trusted => if fingerprint = some key then .trusted else .changed
  | .changed => .changed

/-- `RecordProbe` up to its write: the row it stores, and what it reports. -/
def recordProbe (t : Target) (res : ProbeResult) : Target × HostKeyChange :=
  let status :=
    match seen res.sshHostKey with
    | none => t.hostKeyStatus
    | some key => t.hostKeyStatus.advance t.hostKeyFingerprint key
  let fingerprint := (seen res.sshHostKey).or t.hostKeyFingerprint
  let rdp := pinSeen t.rdp res.tls .rdp
  let winrm := pinSeen t.winrm res.winrmTLS .winrm
  ({ t with
      capabilities := res.capabilities
      hostKeyFingerprint := fingerprint
      hostKeyStatus := status
      rdp := rdp.1
      winrm := winrm.1
      lastProbedAt := some res.probedAt },
    { old := t.hostKeyFingerprint
      new := fingerprint
      status := status
      changed := decide (t.hostKeyStatus = .trusted ∧ status = .changed)
      certificates := rdp.2.toList ++ winrm.2.toList })

/-- The update of `RecordProbe`: every column of the row it made but the address. -/
def Target.store (row probed : Target) : Target := { probed with address := row.address }

variable {c : Certificate} {pin : String} {l : Listener} {t : Target}

theorem pinned_pinSeen (h : c.pinned = some pin) (fingerprint : Option String) :
    (pinSeen c fingerprint l).1.pinned = some pin := by
  unfold pinSeen
  cases seen fingerprint with
  | none => exact h
  | some fp =>
    simp only [pinCertificate, h]
    split
    · rfl
    · split
      · exact h
      · rfl

/-- **The state machine.** A probe trusts nothing, takes back no change, and replaces no pin. -/
structure Probed (t t' : Target) : Prop where
  trusted : t'.hostKeyStatus = .trusted →
    t.hostKeyStatus = .trusted ∧ t'.hostKeyFingerprint = t.hostKeyFingerprint
  changed : t.hostKeyStatus = .changed → t'.hostKeyStatus = .changed
  pinned : ∀ l pin, (t.certificate l).pinned = some pin → (t'.certificate l).pinned = some pin

/-- What a probe leaves of the trust. -/
theorem recordProbe_spec (res : ProbeResult) : Probed t (recordProbe t res).1 where
  trusted := by
    cases hkey : seen res.sshHostKey with
    | none =>
      simp only [recordProbe, hkey, none_or]
      exact fun h => ⟨h, trivial⟩
    | some key =>
      simp only [recordProbe, hkey, some_or]
      cases hstatus : t.hostKeyStatus with
      | trusted =>
        intro h
        simp only [HostKeyStatus.advance] at h
        split at h
        · exact ⟨rfl, by rename_i heq; exact heq.symm⟩
        · cases h
      | _ => exact fun h => nomatch h
  changed := by
    intro h
    cases hkey : seen res.sshHostKey <;> simp [recordProbe, hkey, h, HostKeyStatus.advance]
  pinned := by
    intro l pin h
    cases l with
    | rdp => exact pinned_pinSeen h res.tls
    | winrm => exact pinned_pinSeen h res.winrmTLS

/-! ## Approvals -/

/-- What the approvals answer when they refuse. -/
inductive TrustError where
  | noPendingHostKey
  | noPendingCertificate
  | fingerprintMismatch
  | invalidProtocol
  deriving DecidableEq

/-- `TrustHostKey` up to its write. -/
def trustHostKey (t : Target) (fingerprint : String) : Except TrustError Unit :=
  match t.hostKeyFingerprint with
  | none => .error .noPendingHostKey
  | some fp =>
    if t.hostKeyStatus ≠ .pending ∧ t.hostKeyStatus ≠ .changed then .error .noPendingHostKey
    else if fingerprint ≠ fp then .error .fingerprintMismatch
    else .ok ()

/-- The listener of a protocol `TrustCertificate` takes. -/
def Listener.ofProtocol : Protocol → Option Listener
  | .rdp => some .rdp
  | .winrm => some .winrm
  | _ => none

/-- `TrustCertificate` up to its write. -/
def trustCertificate (t : Target) (proto : Protocol) (fingerprint : String) :
    Except TrustError Listener :=
  match Listener.ofProtocol proto with
  | none => .error .invalidProtocol
  | some l =>
    match (t.certificate l).waiting with
    | none => .error .noPendingCertificate
    | some fp => if fingerprint ≠ fp then .error .fingerprintMismatch else .ok l

/-- The transaction of `Update`: at a new address nothing is known of the machine. -/
def update (t : Target) (address : String) (capabilities : List Protocol) : Target :=
  if t.address = address then { t with capabilities := capabilities }
  else
    { address := address
      capabilities := capabilities
      hostKeyFingerprint := none
      hostKeyStatus := .unknown
      rdp := ⟨none, none⟩
      winrm := ⟨none, none⟩
      lastProbedAt := none }

/-! ## The machine -/

/-- The row and the calls that have read it and not written yet. -/
structure State where
  row : Target
  /-- Probes, each with the row it read and what it saw. -/
  probes : List (Target × ProbeResult)
  keyApprovals : List String
  certificateApprovals : List (Listener × String)
  /-- The host keys approved since the target got its address. No call reads this. -/
  approved : List String
  deriving DecidableEq

def State.start (row : Target) (approved : List String) : State := ⟨row, [], [], [], approved⟩

/-- Steps. A call that is refused, or fails before it writes, leaves the row; one in flight may
write at any time, or never. -/
inductive Label where
  | probeRead (res : ProbeResult)
  | probeWrite (i : Nat)
  | keyRead (fingerprint : String)
  | keyWrite (i : Nat)
  | certificateRead (proto : Protocol) (fingerprint : String)
  | certificateWrite (i : Nat)
  | update (address : String) (capabilities : List Protocol)

def step (s : State) : Label → Option State
  | .probeRead res => some { s with probes := s.probes ++ [(s.row, res)] }
  | .probeWrite i =>
    s.probes[i]?.map fun (t, res) =>
      { s with row := s.row.store (recordProbe t res).1, probes := s.probes.eraseIdx i }
  | .keyRead fp =>
    match trustHostKey s.row fp with
    | .ok () => some { s with keyApprovals := s.keyApprovals ++ [fp] }
    | .error _ => some s
  | .keyWrite i =>
    s.keyApprovals[i]?.map fun fp =>
      let s := { s with keyApprovals := s.keyApprovals.eraseIdx i }
      if s.row.hostKeyFingerprint = some fp then
        { s with row := { s.row with hostKeyStatus := .trusted }, approved := fp :: s.approved }
      else s
  | .certificateRead proto fp =>
    match trustCertificate s.row proto fp with
    | .ok l => some { s with certificateApprovals := s.certificateApprovals ++ [(l, fp)] }
    | .error _ => some s
  | .certificateWrite i =>
    s.certificateApprovals[i]?.map fun (l, fp) =>
      let s := { s with certificateApprovals := s.certificateApprovals.eraseIdx i }
      if (s.row.certificate l).waiting = some fp then
        { s with row := s.row.setCertificate ⟨some fp, none⟩ l }
      else s
  | .update address capabilities =>
    some { s with
      row := Trust.update s.row address capabilities
      approved := if s.row.address = address then s.approved else [] }

/-- When `RecordProbe` writes, the host key and the pins in the row are those it read. -/
def ProbesCurrent (s : State) : Label → Prop
  | .probeWrite i => ∀ t res, s.probes[i]? = some (t, res) →
    t.hostKeyStatus = s.row.hostKeyStatus ∧ t.hostKeyFingerprint = s.row.hostKeyFingerprint ∧
      ∀ l, (t.certificate l).pinned = (s.row.certificate l).pinned
  | _ => True

/-! ## What a step does to the row -/

/-- The approval that a step is of the host key in the row. -/
def Label.ApprovesKey (s : State) (l : Label) : Prop :=
  ∃ i fp, l = .keyWrite i ∧ s.keyApprovals[i]? = some fp ∧ s.row.hostKeyFingerprint = some fp

/-- The approval that a step is of the certificate that waits at a listener. -/
def Label.ApprovesCertificate (s : State) (lis : Listener) (l : Label) : Prop :=
  ∃ i fp, l = .certificateWrite i ∧ s.certificateApprovals[i]? = some (lis, fp) ∧
    (s.row.certificate lis).waiting = some fp

/-- The target gets another address. -/
def Label.Moves (s : State) (l : Label) : Prop :=
  ∃ address capabilities, l = .update address capabilities ∧ s.row.address ≠ address

/-- What a step can do: leave what is trusted alone, record a probe, approve, or start over at
another address. -/
inductive Effect (s : State) (l : Label) (t : State) : Prop
  | same (hrow : t.row = { s.row with capabilities := t.row.capabilities })
      (happroved : t.approved = s.approved)
  | probe (read : Target) (res : ProbeResult) (i : Nat) (hl : l = .probeWrite i)
      (hread : s.probes[i]? = some (read, res))
      (hrow : t.row = s.row.store (recordProbe read res).1) (happroved : t.approved = s.approved)
  | key (fp : String) (hl : l.ApprovesKey s) (hfp : s.row.hostKeyFingerprint = some fp)
      (hrow : t.row = { s.row with hostKeyStatus := .trusted })
      (happroved : t.approved = fp :: s.approved)
  | certificate (lis : Listener) (fp : String) (hl : l.ApprovesCertificate s lis)
      (hrow : t.row = s.row.setCertificate ⟨some fp, none⟩ lis)
      (happroved : t.approved = s.approved)
  | moved (hl : l.Moves s) (hstatus : t.row.hostKeyStatus = .unknown)
      (hpins : ∀ lis, (t.row.certificate lis).pinned = none)

variable {l : Label} {s t : State}

/-- What a step does. -/
theorem step_spec (h : step s l = some t) : Effect s l t := by
  cases l with
  | probeRead res =>
    cases h
    exact .same rfl rfl
  | probeWrite i =>
    obtain ⟨⟨read, res⟩, hread, rfl⟩ := map_eq_some_iff.mp h
    exact .probe read res i rfl hread rfl rfl
  | keyRead | certificateRead =>
    simp only [step] at h
    split at h <;> cases h <;> exact .same rfl rfl
  | keyWrite i =>
    obtain ⟨fp, hfp, rfl⟩ := map_eq_some_iff.mp h
    dsimp only
    split
    · rename_i heq
      exact .key fp ⟨i, fp, rfl, hfp, heq⟩ heq rfl rfl
    · exact .same rfl rfl
  | certificateWrite i =>
    obtain ⟨⟨lis, fp⟩, hfp, rfl⟩ := map_eq_some_iff.mp h
    dsimp only
    split
    · rename_i heq
      exact .certificate lis fp ⟨i, fp, rfl, hfp, heq⟩ rfl rfl
    · exact .same rfl rfl
  | update address capabilities =>
    cases h
    by_cases heq : s.row.address = address
    · refine .same ?_ ?_ <;> simp [Trust.update, heq]
    · refine .moved ⟨address, capabilities, rfl, heq⟩ ?_ fun lis => ?_
      · simp [Trust.update, heq]
      · cases lis <;> simp [Trust.update, heq, Target.certificate]

/-! ## Runs -/

/-- A trusted host key is one approved since the target got its address. -/
def Vouched (s : State) : Prop :=
  s.row.hostKeyStatus = .trusted → ∃ fp ∈ s.approved, s.row.hostKeyFingerprint = some fp

@[simp] theorem hostKeyStatus_setCertificate (t : Target) (l : Listener) :
    (t.setCertificate c l).hostKeyStatus = t.hostKeyStatus := by
  cases l <;> rfl

@[simp] theorem hostKeyFingerprint_setCertificate (t : Target) (l : Listener) :
    (t.setCertificate c l).hostKeyFingerprint = t.hostKeyFingerprint := by
  cases l <;> rfl

theorem certificate_setCertificate_of_ne {t : Target} {l l' : Listener}
    (h : l' ≠ l) : (t.setCertificate c l).certificate l' = t.certificate l' := by
  cases l <;> cases l' <;> first | rfl | exact absurd rfl h

/-- **One step.** -/
theorem Vouched.step (hcond : ProbesCurrent s l) (h : Vouched s)
    (hstep : Trust.step s l = some t) : Vouched t := by
  intro htrusted
  cases step_spec hstep with
  | same hrow happroved =>
    rw [hrow] at htrusted ⊢
    rw [happroved]
    exact h htrusted
  | probe read res i hl hread hrow happroved =>
    subst hl
    obtain ⟨hstatus, hfp, -⟩ := hcond read res hread
    rw [hrow] at htrusted ⊢
    rw [happroved]
    obtain ⟨hreadTrusted, hreadFp⟩ := (recordProbe_spec res).trusted htrusted
    obtain ⟨fp, happ, hrowFp⟩ := h (hstatus.symm.trans hreadTrusted)
    exact ⟨fp, happ, hreadFp.trans (hfp.trans hrowFp)⟩
  | key fp hl hfp hrow happroved =>
    rw [hrow, happroved]
    exact ⟨fp, List.mem_cons_self, hfp⟩
  | certificate lis fp hl hrow happroved =>
    rw [hrow, hostKeyStatus_setCertificate] at htrusted
    rw [hrow, happroved, hostKeyFingerprint_setCertificate]
    exact h htrusted
  | moved hl hstatus hpins =>
    cases hstatus.symm.trans htrusted

/-- A change is taken back only by an approval or at another address. -/
theorem changed_stays (hcond : ProbesCurrent s l)
    (hstep : step s l = some t) (hchanged : s.row.hostKeyStatus = .changed)
    (hleaves : t.row.hostKeyStatus ≠ .changed) : l.ApprovesKey s ∨ l.Moves s := by
  cases step_spec hstep with
  | same hrow happroved =>
    rw [hrow] at hleaves
    exact absurd hchanged hleaves
  | probe read res i hl hread hrow happroved =>
    subst hl
    rw [hrow] at hleaves
    have hread' := (hcond read res hread).1.trans hchanged
    exact absurd ((recordProbe_spec res).changed hread') hleaves
  | key fp hl hfp hrow happroved => exact .inl hl
  | certificate lis fp hl hrow happroved =>
    rw [hrow, hostKeyStatus_setCertificate] at hleaves
    exact absurd hchanged hleaves
  | moved hl hstatus hpins => exact .inr hl

/-- A pin is replaced only by an approval, and cleared only at another address. -/
theorem pinned_stays (hcond : ProbesCurrent s l) (hstep : step s l = some t) {lis : Listener}
    (hpin : (s.row.certificate lis).pinned = some pin)
    (hother : (t.row.certificate lis).pinned ≠ some pin) :
    l.ApprovesCertificate s lis ∨ l.Moves s ∧ (t.row.certificate lis).pinned = none := by
  cases step_spec hstep with
  | same hrow happroved =>
    rw [hrow] at hother
    cases lis <;> exact absurd hpin hother
  | probe read res i hl hread hrow happroved =>
    subst hl
    rw [hrow] at hother
    have hread' := ((hcond read res hread).2.2 lis).trans hpin
    have hpinned := (recordProbe_spec res).pinned lis pin hread'
    cases lis <;> exact absurd hpinned hother
  | key fp hl hfp hrow happroved =>
    rw [hrow] at hother
    cases lis <;> exact absurd hpin hother
  | certificate lis' fp hl hrow happroved =>
    by_cases heq : lis = lis'
    · exact .inl (heq ▸ hl)
    · rw [hrow, certificate_setCertificate_of_ne heq] at hother
      exact absurd hpin hother
  | moved hl hstatus hpins => exact .inr ⟨hl, hpins lis⟩

/-- **Trust is kept.** In every run in which `RecordProbe` writes over the host key and the pins it
read, a trusted host key is one approved since the target got its address; and every step it can
take from there leaves a changed key changed, unless it approves the key or moves the target, and
leaves a pin, unless it approves another certificate or, moving the target, clears it. -/
theorem trust_is_kept {s t : State} {ls : List Label} (hs : Vouched s)
    (hrun : RunWhere step ProbesCurrent s ls t) :
    Vouched t ∧ ∀ l u, ProbesCurrent t l → step t l = some u →
      (t.row.hostKeyStatus = .changed → u.row.hostKeyStatus ≠ .changed →
        l.ApprovesKey t ∨ l.Moves t) ∧
      ∀ lis pin, (t.row.certificate lis).pinned = some pin →
        (u.row.certificate lis).pinned ≠ some pin →
          l.ApprovesCertificate t lis ∨ l.Moves t ∧ (u.row.certificate lis).pinned = none := by
  refine ⟨hrun.keeps Vouched (fun _ _ _ hcond h hstep => h.step hcond hstep) hs, ?_⟩
  intro l u hcond hstep
  exact ⟨changed_stays hcond hstep, fun _ _ => pinned_stays hcond hstep⟩

/-! ## A probe in flight -/

/-- A target that was just created. -/
def created : Target := ⟨"10.0.0.1", [], none, .unknown, ⟨none, none⟩, ⟨none, none⟩, none⟩

def sawKey (key : String) : ProbeResult := ⟨some key, none, none, [.ssh], 0⟩

def sawCertificate (fingerprint : String) : ProbeResult :=
  ⟨none, some fingerprint, none, [.rdp], 0⟩

/-- The first key a probe sees is approved. -/
def approveFirst : List Label := [.probeRead (sawKey "F"), .probeWrite 0, .keyRead "F", .keyWrite 0]

instance (P : Listener → Prop) [DecidablePred P] : Decidable (∀ l, P l) :=
  decidable_of_iff (P .rdp ∧ P .winrm) ⟨fun h l => l.rec h.1 h.2, fun h => ⟨h _, h _⟩⟩

instance (s : State) (l : Label) : Decidable (ProbesCurrent s l) := by
  unfold ProbesCurrent
  split
  · rename_i i
    cases s.probes[i]? with
    | none => exact .isTrue (by simp)
    | some p =>
      exact decidable_of_iff _ ⟨fun h t res e => by cases e; exact h, fun h => h p.1 p.2 rfl⟩
  · infer_instance

theorem vouched_created : Vouched (.start created []) := fun h => nomatch h

/-- An approval and a probe that finds another key, one after the other: the key is approved, and
then changed. -/
theorem trust_is_kept_in_turn :
    ∃ t, RunWhere step ProbesCurrent (.start created [])
        (approveFirst ++ [.probeRead (sawKey "G"), .probeWrite 0]) t ∧
      t.row.hostKeyStatus = .changed ∧ Vouched t :=
  RunWhere.exists_of_decide (by decide +kernel) fun _ hrun ht =>
    ⟨ht, (trust_is_kept vouched_created hrun).1⟩

/-- A probe writes back what it read: over an address change, it trusts a key no one approved for
the new address; over another probe, it takes back a change, and it replaces a pin. -/
theorem stale_probe_writes_back :
    (∃ t, Run step (.start created [])
        (approveFirst ++ [.probeRead (sawKey "F"), .update "10.0.0.2" [], .probeWrite 0]) t ∧
      ¬Vouched t) ∧
    (∃ t u, Run step (.start created [])
        (approveFirst ++ [.probeRead (sawKey "F"), .probeRead (sawKey "G"), .probeWrite 1]) t ∧
      step t (.probeWrite 0) = some u ∧ t.row.hostKeyStatus = .changed ∧
      u.row.hostKeyStatus = .trusted) ∧
    ∃ t u, Run step (.start created [])
        [.probeRead (sawCertificate "A"), .probeRead (sawCertificate "B"), .probeWrite 1] t ∧
      step t (.probeWrite 0) = some u ∧ t.row.rdp.pinned = some "B" ∧
      u.row.rdp.pinned = some "A" := by
  refine ⟨Run.exists_of_decide (P := fun t => t.row.hostKeyStatus = .trusted ∧ t.approved = [])
    (by decide +kernel) fun t _ ⟨htrusted, hnone⟩ hvouched => ?_,
    Run.exists_step_of_decide (by decide +kernel), Run.exists_step_of_decide (by decide +kernel)⟩
  obtain ⟨fp, hfp, -⟩ := hvouched htrusted
  rw [hnone] at hfp
  cases hfp

end Zanskar.Trust
