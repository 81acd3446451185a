import Zanskar.Asg.Sync
import Zanskar.Lib.Fold

/-!
# What a poll does

One lemma for each part of a poll says everything it may do: what a probe keeps of the
fingerprints it is presented (`Kept`, `Observed`), what a listing stores (`Visited`), and what
is left alone (`Quiet`, `SameRows`). The results about runs are derived from these, by the rule
`syncGroup_keeps` for a whole poll.
-/

namespace Zanskar.Asg

open Go Lib List

/-! ## What the parts of a poll leave alone -/

/-- Nothing changed but the notes and counters, what the console was asked, and the end of the
audit log. -/
structure Quiet (s t : State) : Prop where
  rows : t.rows = s.rows
  registry : t.registry = s.registry
  writes : t.writes = s.writes
  used : t.used = s.used
  audit : s.audit <+: t.audit
  asked : s.asked <+: t.asked

variable {s : State} {g : Group} {l : Listing} {prev : Option Instance} {res : ProbeResult}
  {r : Instance} {fails : Action → Bool} {I : State → Prop} {observed pinned : String}
  {t u : State} {a : Action} {sum : Summary}

namespace Quiet

theorem refl : Quiet s s :=
  ⟨rfl, rfl, rfl, rfl, prefix_rfl, prefix_rfl⟩

theorem trans (h : Quiet s t) (h' : Quiet t u) : Quiet s u :=
  ⟨h'.rows.trans h.rows, h'.registry.trans h.registry, h'.writes.trans h.writes,
    h'.used.trans h.used, h.audit.trans h'.audit, h.asked.trans h'.asked⟩

theorem record : Quiet s (s.record fails g r a) := by
  unfold State.record
  split
  · exact refl
  · exact ⟨rfl, rfl, rfl, rfl, prefix_append _ _, prefix_rfl⟩

theorem cleared {instanceID kind : String} : Quiet s (s.cleared instanceID kind) :=
  ⟨rfl, rfl, rfl, rfl, prefix_rfl, prefix_rfl⟩

theorem counted : Quiet s { s with sum := sum } :=
  ⟨rfl, rfl, rfl, rfl, prefix_rfl, prefix_rfl⟩

theorem reportOnce {instanceID kind : String} {subject : Instance} :
    Quiet s (s.reportOnce fails g instanceID kind observed subject a) := by
  unfold State.reportOnce
  split
  · exact refl
  · have hnoted : Quiet s
        { s with reported := State.sighting instanceID kind observed :: s.reported } :=
      ⟨rfl, rfl, rfl, rfl, prefix_rfl, prefix_rfl⟩
    exact hnoted.trans record

end Quiet

/-! ## What a probe keeps of the fingerprints -/

/-- How a fingerprint `v` to store comes about, of the one pinned before and the one presented;
`bad` when the instance is called unhealthy over it. -/
structure Kept (pinned observed v : String) (bad : Bool) : Prop where
  kept : pinned ≠ "" → v = pinned
  first : pinned = "" → v = "" ∨ v = observed
  agrees : bad = false → observed ≠ "" → v = observed

/-- Calling the instance unhealthy over another fingerprint too keeps the account of this one. -/
theorem Kept.mono {v : String} {bad bad' : Bool} (h : Kept pinned observed v bad)
    (hbad : bad' = false → bad = false) : Kept pinned observed v bad' :=
  ⟨h.kept, h.first, fun hgood => h.agrees (hbad hgood)⟩

/-- The first fingerprint presented is pinned. -/
theorem Kept.pins : Kept "" observed observed false :=
  ⟨fun h => absurd rfl h, fun _ => .inr rfl, fun _ _ => rfl⟩

/-- Another fingerprint than the pinned one. -/
theorem Kept.mismatch (hpin : pinned ≠ "") : Kept pinned observed pinned true :=
  ⟨fun _ => rfl, fun h => absurd h hpin, fun h => absurd h (by decide)⟩

/-- The pinned fingerprint again, or none. -/
theorem Kept.same (hpin : pinned ≠ "") (h : observed ≠ "" → pinned = observed) :
    Kept pinned observed pinned false :=
  ⟨fun _ => rfl, fun hempty => absurd hempty hpin, fun _ => h⟩

/-- The row with this host key, unhealthy over it if `bad`. -/
def Instance.keyed (r : Instance) (key : String) (source : HostKeySource) (bad : Bool) :
    Instance :=
  { r with
    hostKeyFingerprint := key
    hostKeySource := source
    probeHealth := if bad then .unhealthy else r.probeHealth }

/-- A certificate is pinned, is the pinned one, or makes the instance unhealthy. -/
theorem pinCertificate_spec (proto : Protocol) (set : Instance → String → Instance) :
    ∃ v bad, Kept pinned observed v bad ∧
      (pinCertificate l g proto observed pinned set r s).1 =
        set (if bad then { r with probeHealth := .unhealthy } else r) v ∧
      Quiet s (pinCertificate l g proto observed pinned set r s).2 := by
  unfold pinCertificate
  split
  · rename_i hnone
    exact ⟨observed, false, hnone ▸ .pins, rfl, Quiet.refl⟩
  split
  · rename_i hpin hsame
    refine ⟨pinned, false, .same hpin fun hobs => (hsame.resolve_left hobs).symm, rfl, ?_⟩
    split
    · exact Quiet.cleared
    · exact Quiet.refl
  · rename_i hpin _
    exact ⟨pinned, true, .mismatch hpin, rfl, Quiet.counted.trans Quiet.reportOnce⟩

variable {r : Instance}

/-- A listener without a pin that presented nothing is left without a pin. -/
theorem pinListener_spec (proto : Protocol) (seen : Option String)
    {set : Instance → String → Instance} (hset : set r "" = r) :
    ∃ v bad, Kept pinned (seen.getD "") v bad ∧
      (pinListener l g proto seen pinned set r s).1 =
        set (if bad then { r with probeHealth := .unhealthy } else r) v ∧
      Quiet s (pinListener l g proto seen pinned set r s).2 := by
  unfold pinListener
  split
  · exact pinCertificate_spec proto set
  · rename_i hnot
    obtain ⟨hseen, hpinned⟩ := not_or.mp hnot
    have hnone : seen = none := by simpa using hseen
    refine ⟨"", false, ⟨fun hne => absurd hne hpinned, fun _ => .inl rfl, fun _ hne => ?_⟩,
      hset.symm, Quiet.refl⟩
    rw [hnone] at hne
    exact absurd rfl hne

/-- The two listeners in turn: either can make the instance unhealthy. -/
theorem pinCertificates_spec (prev : Option Instance) (res : ProbeResult) (s : State)
    (htls : r.tlsFingerprint = "") (hwinrm : r.winRMTLSFingerprint = "") :
    ∃ v w bad, Kept (pinnedBefore prev .rdp) (res.fingerprint .rdp) v bad ∧
      Kept (pinnedBefore prev .winrm) (res.fingerprint .winrm) w bad ∧
      (pinCertificates l g r prev res s).1 =
        { r with
          tlsFingerprint := v
          winRMTLSFingerprint := w
          probeHealth := if bad then .unhealthy else r.probeHealth } ∧
      Quiet s (pinCertificates l g r prev res s).2 := by
  have hset : r.setTLS "" = r := by
    rw [← htls]
    rfl
  obtain ⟨v, bad₁, hkept₁, hr₁, hquiet₁⟩ :=
    pinListener_spec .rdp res.tls hset
  unfold pinCertificates
  cases hfirst : pinListener l g .rdp res.tls (pinnedBefore prev .rdp) Instance.setTLS r s with
  | mk r₁ s₁ =>
    rw [hfirst] at hr₁ hquiet₁
    dsimp only at hr₁ hquiet₁ ⊢
    have hset₁ : r₁.setWinRMTLS "" = r₁ := by
      rw [hr₁, ← hwinrm]
      cases bad₁ <;> rfl
    obtain ⟨w, bad₂, hkept₂, hr₂, hquiet₂⟩ :=
      pinListener_spec .winrm res.winRMTLS hset₁
    refine ⟨v, w, bad₁ || bad₂, hkept₁.mono ?_, hkept₂.mono ?_, ?_, hquiet₁.trans hquiet₂⟩
    · intro h
      exact (Bool.or_eq_false_iff.mp h).1
    · intro h
      exact (Bool.or_eq_false_iff.mp h).2
    · rw [hr₂, hr₁]
      cases bad₁ <;> cases bad₂ <;> rfl

/-- A pinned host key is never replaced. -/
theorem compareHostKey_spec {p : Instance} (hpin : p.hostKeyFingerprint ≠ "") :
    ∃ v source bad, Kept p.hostKeyFingerprint (res.fingerprint .hostKey) v bad ∧
      (compareHostKey l g r p res s).1 = r.keyed v source bad ∧
      Quiet s (compareHostKey l g r p res s).2 := by
  unfold compareHostKey
  split
  · rename_i hnone
    refine ⟨p.hostKeyFingerprint, p.hostKeySource, false, .same hpin fun hobs => ?_, rfl,
      Quiet.refl⟩
    rw [ProbeResult.fingerprint, hnone] at hobs
    exact absurd rfl hobs
  · rename_i observed hobs
    split
    · exact ⟨p.hostKeyFingerprint, p.hostKeySource, true, .mismatch hpin, rfl,
        Quiet.counted.trans Quiet.reportOnce⟩
    · rename_i hsame
      refine ⟨p.hostKeyFingerprint, p.hostKeySource, false, .same hpin fun _ => ?_, rfl,
        Quiet.cleared⟩
      rw [ProbeResult.fingerprint, hobs]
      exact (not_not.mp hsame).symm

/-- A key is pinned for an instance that has none only when the console lists it or cannot be
read, and then the console was asked. -/
theorem pinHostKey_spec (hnone : r.hostKeyFingerprint = "") :
    ∃ v source bad, Kept "" (res.fingerprint .hostKey) v bad ∧
      (pinHostKey l g r res s).1 = r.keyed v source bad ∧
      Quiet s (pinHostKey l g r res s).2 ∧
      (v ≠ "" → l.console = none ∨ ∃ keys, l.console = some keys ∧ v ∈ keys ∧
        ⟨r.instanceID, v, some keys⟩ ∈ (pinHostKey l g r res s).2.asked.drop s.asked.length) := by
  unfold pinHostKey
  split
  · -- no key was presented
    rename_i hempty
    refine ⟨"", r.hostKeySource, false,
      ⟨fun h => absurd rfl h, fun _ => .inl rfl, fun _ hne => absurd hempty hne⟩, ?_,
      Quiet.refl, fun h => absurd rfl h⟩
    rw [← hnone]
    rfl
  · rename_i hsome
    have hasked : Quiet s
        { s with asked := s.asked ++ [⟨r.instanceID, res.fingerprint .hostKey, l.console⟩] } :=
      ⟨rfl, rfl, rfl, rfl, prefix_rfl, prefix_append _ _⟩
    dsimp only
    split
    · rename_i keys hcon
      split
      · rename_i hlisted
        refine ⟨_, .console, false, .pins, rfl, hasked.trans Quiet.cleared,
          fun _ => .inr ⟨keys, hcon, ?_, ?_⟩⟩
        · exact contains_iff_mem.mp hlisted
        · show _ ∈ (s.asked ++ _).drop s.asked.length
          rw [drop_left, hcon]
          exact mem_singleton_self _
      · -- the console lists other keys: nothing is pinned
        refine ⟨"", r.hostKeySource, true,
          ⟨fun h => absurd rfl h, fun _ => .inl rfl, fun h => absurd h (by decide)⟩, ?_,
          (hasked.trans Quiet.counted).trans Quiet.reportOnce,
          fun h => absurd rfl h⟩
        rw [← hnone]
        rfl
    · -- the console cannot be read: trust on first use
      rename_i hcon
      exact ⟨_, .tofu, false, .pins, rfl, hasked, fun _ => .inl hcon⟩

/-- What is known of the instance a poll is about to store for a listing. -/
structure Observed (sy : Syncer) (g : Group) (prev : Option Instance) (l : Listing)
    (s t : State) (r : Instance) : Prop where
  instanceID : r.instanceID = l.ci.id
  /-- What was pinned before is kept, or left for the upsert to keep. -/
  kept : ∀ k, pinnedBefore prev k ≠ "" → r.pin k = "" ∨ r.pin k = pinnedBefore prev k
  /-- What was not pinned before is what was observed, if anything. -/
  first : ∀ k, pinnedBefore prev k = "" → r.pin k = "" ∨ l.observed sy g k = some (r.pin k)
  /-- Healthy only with what was observed pinned. -/
  healthy : r.probeHealth = .healthy → ∀ k fp, l.observed sy g k = some fp → r.pin k = fp
  /-- A first host key is one the console lists, or comes without a console's answer. -/
  console : pinnedBefore prev .hostKey = "" → r.hostKeyFingerprint ≠ "" →
    l.console = none ∨ ∃ keys, l.console = some keys ∧ r.hostKeyFingerprint ∈ keys ∧
      ⟨l.ci.id, r.hostKeyFingerprint, some keys⟩ ∈ t.asked.drop s.asked.length
  quiet : Quiet s t

theorem pinnedBefore_byCloudID (rs : Rows) (iid : String) (k : Pin) :
    pinnedBefore (rs.byCloudID iid) k = rs.pin iid k := rfl

/-- A host key is compared with the pin, or pinned where there is none. -/
theorem judgeHostKey_spec (hnone : r.hostKeyFingerprint = "") :
    ∃ v source bad t, Kept (pinnedBefore prev .hostKey) (res.fingerprint .hostKey) v bad ∧
      judgeHostKey l g r prev res s = (r.keyed v source bad, t) ∧ Quiet s t ∧
      (pinnedBefore prev .hostKey = "" → v ≠ "" →
        l.console = none ∨ ∃ keys, l.console = some keys ∧ v ∈ keys ∧
          ⟨r.instanceID, v, some keys⟩ ∈ t.asked.drop s.asked.length) := by
  by_cases hpin : pinnedBefore prev .hostKey = ""
  · -- without a pinned key, both shapes of `prev` come to `pinHostKey`
    have hjudge : judgeHostKey l g r prev res s = pinHostKey l g r res s := by
      cases prev with
      | none => rfl
      | some p => exact if_neg (not_not.mpr hpin)
    obtain ⟨v, source, bad, hkept, hr, hquiet, hcon⟩ := pinHostKey_spec hnone
    exact ⟨v, source, bad, _, hpin ▸ hkept, hjudge.trans (Prod.ext hr rfl), hquiet, fun _ => hcon⟩
  · cases prev with
    | none => exact absurd rfl hpin
    | some p =>
      obtain ⟨v, source, bad, hkept, hr, hquiet⟩ := compareHostKey_spec hpin
      have hjudge : judgeHostKey l g r (some p) res s = compareHostKey l g r p res s := if_pos hpin
      exact ⟨v, source, bad, _, hkept, hjudge.trans (Prod.ext hr rfl), hquiet,
        fun hempty => absurd hempty hpin⟩

/-- What a probe that answered makes of the row. -/
theorem judge_spec :
    ∃ (fp : Pin → String) (bad : Bool),
      (∀ k, Kept (pinnedBefore prev k) (res.fingerprint k) (fp k) bad) ∧
      (judge l g l.row prev res s).1.instanceID = l.ci.id ∧
      (∀ k, (judge l g l.row prev res s).1.pin k = fp k) ∧
      (bad → (judge l g l.row prev res s).1.probeHealth = .unhealthy) ∧
      (pinnedBefore prev .hostKey = "" → fp .hostKey ≠ "" →
        l.console = none ∨ ∃ keys, l.console = some keys ∧ fp .hostKey ∈ keys ∧
          ⟨l.ci.id, fp .hostKey, some keys⟩ ∈
            (judge l g l.row prev res s).2.asked.drop s.asked.length) ∧
      Quiet s (judge l g l.row prev res s).2 := by
  let r₀ : Instance :=
    { l.row with
      probeHealth := if g.capabilities.all res.reachable then .healthy else .unhealthy }
  obtain ⟨v, w, bad₁, hv, hw, hr₁, hquiet₁⟩ := pinCertificates_spec (r := r₀) prev res s rfl rfl
  cases hcerts : pinCertificates l g r₀ prev res s with
  | mk r₁ s₁ =>
    rw [hcerts] at hr₁ hquiet₁
    dsimp only at hr₁ hquiet₁
    -- the certificates come first and leave the host key empty
    have hnone : r₁.hostKeyFingerprint = "" := by
      rw [hr₁]
      rfl
    obtain ⟨x, source, bad₂, t, hx, hlast, hquiet₂, hcon⟩ := judgeHostKey_spec hnone
    have hjudge : judge l g l.row prev res s = (r₁.keyed x source bad₂, t) := by
      rw [← hlast]
      unfold judge
      dsimp only
      rw [show pinCertificates l g { l.row with
        probeHealth := if g.capabilities.all res.reachable then .healthy else .unhealthy }
        prev res s = (r₁, s₁) from hcerts]
    have hiid : r₁.instanceID = l.ci.id := by
      rw [hr₁]
      rfl
    rw [hjudge]
    refine ⟨fun k => Pin.casesOn k x v w, bad₁ || bad₂, ?_, hiid, ?_, ?_, ?_, hquiet₁.trans hquiet₂⟩
    · intro k
      cases k with
      | hostKey => exact hx.mono fun h => (Bool.or_eq_false_iff.mp h).2
      | rdp => exact hv.mono fun h => (Bool.or_eq_false_iff.mp h).1
      | winrm => exact hw.mono fun h => (Bool.or_eq_false_iff.mp h).1
    · intro k
      cases k with
      | hostKey => rfl
      | rdp =>
        show r₁.tlsFingerprint = v
        rw [hr₁]
      | winrm =>
        show r₁.winRMTLSFingerprint = w
        rw [hr₁]
    · intro hbad
      show (if bad₂ then ProbeHealth.unhealthy else r₁.probeHealth) = .unhealthy
      cases bad₂ with
      | true => rfl
      | false =>
        -- the host key agrees, so a certificate does not
        rw [Bool.or_false] at hbad
        rw [hr₁, hbad]
        rfl
    · intro hempty hne
      rcases hcon hempty hne with hc | ⟨keys, hc, hmem, hasked⟩
      · exact .inl hc
      · refine .inr ⟨keys, hc, hmem, ?_⟩
        rw [hiid] at hasked
        exact (drop_sublist_drop_left _ hquiet₁.asked.length_le).subset hasked

theorem Listing.observed_ne (l : Listing) {sy : Syncer} {k : Pin} {fp : String}
    (h : l.observed sy g k = some fp) : fp ≠ "" := by
  unfold Listing.observed at h
  split at h
  · simpa using (Option.filter_eq_some_iff.mp h).2
  · cases h

/-- `Observed` holds, whether the instance is probed or not. -/
theorem observe_spec (sy : Syncer) (g : Group) (prev : Option Instance) (l : Listing) (s : State) :
    Observed sy g prev l s (observe sy g prev l s).2 (observe sy g prev l s).1 := by
  -- an instance that is not probed is unhealthy, and supplies no pin
  have hskip : ∀ r, r = { l.row with probeHealth := .unhealthy } → Observed sy g prev l s s r := by
    rintro r rfl
    have hpin : ∀ k, ({ l.row with probeHealth := .unhealthy } : Instance).pin k = "" := by
      intro k
      cases k <;> rfl
    exact ⟨rfl, fun k _ => .inl (hpin k), fun k _ => .inl (hpin k),
      (fun h => by cases h), fun _ hne => absurd (hpin .hostKey) hne, Quiet.refl⟩
  unfold observe
  split
  · rename_i hcloud
    unfold probe
    split
    · exact hskip _ rfl
    · rename_i res hres
      have hobs : ∀ k, l.observed sy g k =
          if res.fingerprint k = "" then none else some (res.fingerprint k) := by
        intro k
        rw [Listing.observed, if_pos hcloud, hres, Option.map_some, Option.filter_some]
        by_cases h : res.fingerprint k = ""
        · rw [if_pos h]
          simp [h]
        · rw [if_neg h]
          simp [h]
      obtain ⟨fp, bad, hkept, hiid, hpin, hbad, hcon, hquiet⟩ := judge_spec
      refine ⟨hiid, ?_, ?_, ?_, ?_, hquiet⟩
      · intro k hne
        rw [hpin]
        exact .inr ((hkept k).kept hne)
      · intro k hempty
        rw [hpin, hobs]
        by_cases hfp : fp k = ""
        · exact .inl hfp
        · have hsame : fp k = res.fingerprint k := ((hkept k).first hempty).resolve_left hfp
          rw [hsame] at hfp ⊢
          exact .inr (if_neg hfp)
      · intro hhealthy k v hv
        have hgood : bad = false := by
          cases bad with
          | false => rfl
          | true => exact absurd (hhealthy.symm.trans (hbad rfl)) (by decide)
        rw [hobs] at hv
        split at hv
        · cases hv
        · rename_i hne
          rw [hpin, (hkept k).agrees hgood hne]
          exact Option.some.inj hv
      · intro hempty hne
        have hfp : (judge l g l.row prev res s).1.hostKeyFingerprint = fp .hostKey := hpin .hostKey
        rw [hfp] at hne ⊢
        exact hcon hempty hne
  · exact hskip _ rfl

/-! ## One listing, and the whole poll -/

/-- Nothing changed but the notes and counters, the sessions, and the end of the audit log. -/
structure SameRows (s t : State) : Prop where
  rows : t.rows = s.rows
  writes : t.writes = s.writes
  asked : t.asked = s.asked
  used : t.used = s.used
  audit : s.audit <+: t.audit

namespace SameRows

theorem refl : SameRows s s := ⟨rfl, rfl, rfl, rfl, prefix_rfl⟩

theorem trans (h : SameRows s t) (h' : SameRows t u) : SameRows s u :=
  ⟨h'.rows.trans h.rows, h'.writes.trans h.writes, h'.asked.trans h.asked, h'.used.trans h.used,
    h.audit.trans h'.audit⟩

theorem counted : SameRows s { s with sum := sum } :=
  ⟨rfl, rfl, rfl, rfl, prefix_rfl⟩

theorem record : SameRows s (s.record fails g r a) := by
  unfold State.record
  split
  · exact refl
  · exact ⟨rfl, rfl, rfl, rfl, prefix_append _ _⟩

theorem retire : SameRows s (s.retire r) :=
  ⟨rfl, rfl, rfl, rfl, prefix_rfl⟩

theorem settle {stored : Instance} {isNew : Bool} :
    SameRows s (settle g prev l stored isNew s) := by
  have hcounted : SameRows s
      (if stored.healthy then { s with sum.healthy := s.sum.healthy + 1 } else s) := by
    split
    · exact counted
    · exact refl
  unfold Asg.settle
  dsimp only
  split
  · exact hcounted.trans (counted.trans record)
  split
  · exact hcounted.trans ((counted.trans record).trans retire)
  · exact hcounted

theorem leave {p : Poll} : SameRows s (leave g p s r) :=
  ((counted.trans record).trans (retire (r := r))).trans ⟨rfl, rfl, rfl, rfl, prefix_rfl⟩

end SameRows

/-- What a listing does: its upsert fails and stores nothing, or it stores what was observed of
the instance. -/
inductive Visited (sy : Syncer) (g : Group) (previous : Rows) (l : Listing) (s : State) :
    State × Bool → Prop
  | failed {t : State} (quiet : Quiet s t) : Visited sy g previous l s (t, false)
  | stored {m : State} {rows : Rows} {r stored : Instance} {isNew : Bool}
      (obs : Observed sy g (previous.byCloudID l.ci.id) l s m r)
      (up : Upserted s.rows rows l.db r stored isNew) :
      Visited sy g previous l s
        (settle g (previous.byCloudID l.ci.id) l stored isNew (m.wrote rows stored), true)

/-- The two outcomes of a listing. -/
theorem visit_spec (sy : Syncer) (g : Group) (previous : Rows) (l : Listing) (s : State) :
    Visited sy g previous l s (visit sy g previous l s) := by
  have hobs := observe_spec sy g (previous.byCloudID l.ci.id) l
    { s with sum.seen := s.sum.seen + 1 }
  have hquiet := Quiet.counted.trans hobs.quiet
  unfold visit
  dsimp only at hobs hquiet ⊢
  split
  · exact .failed hquiet
  · rename_i rows stored isNew hup
    have hspec := upsertInstance_spec hup
    rw [hquiet.rows] at hspec
    exact .stored ⟨hobs.instanceID, hobs.kept, hobs.first, hobs.healthy, hobs.console, hquiet⟩ hspec

variable {s : State} {g : Group} {sy : Syncer}

/-- **Listings.** What each listing keeps, going through them keeps. -/
theorem visitAll_keeps (previous : Rows) {ls : List Listing}
    (hvisit : ∀ l ∈ ls, ∀ s, I s → I (visit sy g previous l s).1) (h : I s) :
    I (visitAll sy g previous ls s).1 := by
  induction ls generalizing s with
  | nil => exact h
  | cons l ls ih =>
    have hhead := hvisit l mem_cons_self s h
    unfold visitAll
    cases hv : visit sy g previous l s with
    | mk t ok =>
      rw [hv] at hhead
      cases ok with
      | true => exact ih (fun l' hl' => hvisit l' (mem_cons_of_mem _ hl')) hhead
      | false => exact hhead

/-- **Rows marked.** What each update keeps, `MarkTerminated` keeps, whether it fails or not. -/
theorem markEach_keeps (now : Int) (keep : List String)
    (hmark : ∀ s (r : Instance), I s → I (s.wrote (s.rows.markRow r.id now) (r.terminated now)))
    (failsAt : Option Nat) (all : List Instance) (h : I s) :
    I (markEach now keep failsAt all s).1 := by
  induction all generalizing failsAt s with
  | nil =>
    unfold markEach
    exact h
  | cons r rest ih =>
    unfold markEach
    split
    · exact ih failsAt h
    split
    · exact h
    · have hrest := ih (failsAt.map (· - 1)) (hmark s r h)
      split <;> rename_i heq <;> rw [heq] at hrest <;> exact hrest

/-- **Polls.** What each listing keeps, what the update of a row keeps, and what depends on the
rows and the records only, a poll keeps, wherever it fails. -/
theorem syncGroup_keeps {p : Poll} (I : State → Prop) (hsame : ∀ s t, SameRows s t → I s → I t)
    (hvisit : ∀ ls, p.snapshot = some ls → ∀ l ∈ ls, ∀ m, I m → I (visit sy g s.rows l m).1)
    (hmark : ∀ m (r : Instance), I m → I (m.wrote (m.rows.markRow r.id p.now) (r.terminated p.now)))
    (h : I s) : I (syncGroup sy g p s).1 := by
  have hstart := hsame s _ (@SameRows.counted s ⟨0, 0, 0, 0, 0, 0, 0⟩) h
  unfold syncGroup
  dsimp only
  split
  · exact hstart
  · rename_i ls hls
    split
    · exact hstart
    · have hvisited := visitAll_keeps s.rows (fun l hl m => hvisit ls hls l hl m) hstart
      split <;> rename_i m heq <;> rw [heq] at hvisited
      · exact hvisited
      split
      · exact hvisited
      · have hmarked := markEach_keeps p.now (ls.map fun l => l.ci.id) hmark p.markFailsAt
          (m.rows.instances sy.dialect) hvisited
        split <;> rename_i hend <;> rw [hend] at hmarked
        · exact hmarked
        · exact Lib.foldl_keeps I (fun t r _ ht => hsame t _ SameRows.leave ht) hmarked

/-- What a step does. -/
inductive Stepped (sy : Syncer) (g : Group) (s : State) : Label → State → Prop
  | poll (p : Poll) : Stepped sy g s (.poll p) (syncGroup sy g p s).1
  | opened (l : Live) (fresh : l.sessionID ∉ s.used) (hrunning : l.ended = none) :
      Stepped sy g s (.opened l)
        { s with registry := s.registry.add l, used := l.sessionID :: s.used }
  | closed (sessionID : String) :
      Stepped sy g s (.closed sessionID) { s with registry := s.registry.remove sessionID }

/-- The three steps. -/
theorem step_spec {t : State} {lbl : Label}
    (h : step sy g s lbl = some t) : Stepped sy g s lbl t := by
  cases lbl with
  | poll p =>
    cases h
    exact .poll p
  | opened l =>
    simp only [step] at h
    split at h <;> cases h
    rename_i hguard
    obtain ⟨hfresh, hend⟩ := not_or.mp hguard
    exact .opened l (by simpa using hfresh) (by simpa using hend)
  | closed sid =>
    cases h
    exact .closed sid

end Zanskar.Asg
