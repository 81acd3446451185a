import Zanskar.Audit.Intact

/-!
# Anchors across a change of the master key

`key rotate-master` calls `ResignAnchors` with the old and the new anchor key while
gateways that still hold the old one go on calling `Anchor`. What stops them is the
newest stored anchor: `Anchor` refuses to add to a table whose newest anchor has
another signature. An empty table, before the first anchor or after `Reseal` has
removed them all, stops no one.

- `rotation_retires_old_key` : as long as a stale gateway finds an anchor, it stores
  none;
- `stale_gateway_anchors` : where it finds none, it stores one under the old key.
-/

namespace Zanskar.Audit

open Go List
open Lib (Ordered Run RunWhere)

variable {sha256 : Bytes → Digest} {hmac : Bytes → Bytes → Digest} {oldKey newKey : Bytes}
  {a : Anchor} {db db' : Db} {c : AnchorCall} {head : Event} {anchors : Ordered Anchor.id}
  {l : AuditCall} {db₁ : Db} {resigned skipped : Nat}

/-! ## Signatures under two keys -/

namespace Anchor

/-- The two keys sign the anchor differently. -/
def Apart (hmac : Bytes → Bytes → Digest) (oldKey newKey : Bytes) (a : Anchor) : Prop :=
  hmac oldKey a.message ≠ hmac newKey a.message

theorem signed_iff {key : Bytes} :
    a.signed hmac key ↔ key ≠ [] ∧ a.macUnder hmac key = a.mac := by
  simp [signed]

/-- An anchor with one of two signatures does not have the other. -/
theorem Apart.not_signed_old (hapart : a.Apart hmac oldKey newKey)
    (hnew : a.signed hmac newKey) : ¬a.signed hmac oldKey := by
  intro hold
  have hmac_eq := (signed_iff.mp hold).2.trans (signed_iff.mp hnew).2.symm
  exact hapart (Subtype.ext (hex_injective hmac_eq))

/-- A genuine anchor is signed with the new key afterwards. -/
theorem signed_resigned (hkey : newKey ≠ [])
    (h : a.signed hmac oldKey ∨ a.signed hmac newKey) :
    (a.resigned hmac oldKey newKey).signed hmac newKey := by
  unfold resigned
  split
  · assumption
  · rename_i hnew
    rw [if_pos (h.resolve_right hnew)]
    exact signed_iff.mpr ⟨hkey, rfl⟩

theorem resigned_eq_of_signed (h : a.signed hmac oldKey ∨ a.signed hmac newKey) :
    a.resigned hmac oldKey newKey = { a with mac := a.macUnder hmac newKey } := by
  unfold resigned
  split
  · rename_i hnew
    rw [(signed_iff.mp hnew).2]
  · rename_i hnew
    rw [if_pos (h.resolve_right hnew)]

theorem resigned_eq_self (h : ¬a.signed hmac oldKey) :
    a.resigned hmac oldKey newKey = a := by
  rw [resigned, if_neg h, ite_self]

theorem Apart.not_signed_old_resigned (hapart : a.Apart hmac oldKey newKey)
    (hkey : newKey ≠ []) : ¬(a.resigned hmac oldKey newKey).signed hmac oldKey := by
  by_cases h : a.signed hmac oldKey ∨ a.signed hmac newKey
  · have hsigned := signed_resigned hkey h
    have hsame : (a.resigned hmac oldKey newKey).Apart hmac oldKey newKey := by
      rw [resigned_eq_of_signed h]
      exact hapart
    exact hsame.not_signed_old hsigned
  · rw [not_or] at h
    rw [resigned_eq_self h.1]
    exact h.1

/-! ## Ids of anchors -/

end Anchor

/-- The ids of the stored anchors are positive and were handed out by the sequence. -/
structure Numbered (db : Db) : Prop where
  seq : 0 ≤ db.anchorSeq
  ids : ∀ a ∈ db.anchors.rows, 0 < a.id ∧ a.id ≤ db.anchorSeq

theorem Numbered.of_ids (hdb : Numbered db) (hseq : db'.anchorSeq = db.anchorSeq)
    (hids : ∀ a' ∈ db'.anchors.rows, ∃ a ∈ db.anchors.rows, a.id = a'.id) : Numbered db' := by
  refine ⟨hseq ▸ hdb.seq, fun a' ha' => ?_⟩
  obtain ⟨a, ha, hid⟩ := hids a' ha'
  rw [hseq, ← hid]
  exact hdb.ids a ha

theorem Numbered.add
    (hdb : Numbered db) (hadd : db.anchors.add (c.anchor hmac db head) = some anchors) :
    Numbered { db with anchors, anchorSeq := db.anchorSeq + 1 + c.skipped } := by
  have hseq := hdb.seq
  refine ⟨by dsimp only; omega, ?_⟩
  rw [(Ordered.add_eq_some hadd).1, forall_mem_append, forall_mem_singleton]
  refine ⟨fun a ha => ?_, ?_⟩
  · have hid := hdb.ids a ha
    exact ⟨hid.1, by dsimp only; omega⟩
  · exact ⟨by show 0 < db.anchorSeq + 1 + c.skipped; omega, le_rfl⟩

theorem Numbered.step (hdb : Numbered db)
    (h : auditStep sha256 hmac db l = some db') : Numbered db' := by
  rcases auditStep_cases h with rfl | hleaves
  · exact hdb
  cases l with
  | record c =>
    obtain ⟨e, hcall⟩ := hleaves
    obtain ⟨hash, -, -, -, -, hanchors, hseq⟩ := record_ok hcall
    exact hdb.of_ids hseq fun a ha => ⟨a, hanchors ▸ ha, rfl⟩
  | anchor c =>
    obtain ⟨a, hcall⟩ := hleaves
    rcases anchorHead_ok hcall with rfl | ⟨head, anchors, -, -, hadd, rfl⟩
    · exact hdb
    · exact hdb.add hadd
  | resign oldKey newKey =>
    obtain ⟨resigned, skipped, hcall⟩ := hleaves
    obtain ⟨-, -, hrows, -, hseq, -⟩ := resignAnchors_ok hcall
    refine hdb.of_ids hseq fun a' ha' => ?_
    rw [hrows] at ha'
    obtain ⟨a, ha, rfl⟩ := mem_map.mp ha'
    exact ⟨a, ha, (a.resigned_id).symm⟩
  | reseal =>
    obtain ⟨res, hcall⟩ := hleaves
    obtain ⟨s, -, rfl⟩ := reseal_ok hcall
    exact hdb.of_ids rfl fun a ha => ⟨a, mem_of_mem_filter ha, rfl⟩

theorem numbered_of_run {ls : List AuditCall}
    (h : Run (auditStep sha256 hmac) Db.empty ls db) : Numbered db :=
  RunWhere.keeps Numbered (fun _ _ _ _ hdb hstep => hdb.step hstep)
    ⟨le_rfl, fun _ h => absurd h not_mem_nil⟩ h

/-! ## After the rotation -/

/-- The calls of one rotation: gateways with the old or the new key, re-signing from one
to the other, and no anchor that both keys sign alike. -/
def InRotation (hmac : Bytes → Bytes → Digest) (oldKey newKey : Bytes) (db : Db) :
    AuditCall → Prop
  | .anchor c => (c.key = oldKey ∨ c.key = newKey) ∧
      ∀ head, db.events.newest = some head → (c.anchor hmac db head).Apart hmac oldKey newKey
  | .resign k k' => k = oldKey ∧ k' = newKey
  | _ => True

/-- A gateway with the old key finds a stored anchor, or nothing to anchor. -/
def FindsAnchor (oldKey : Bytes) (db : Db) : AuditCall → Prop
  | .anchor c => c.key = oldKey → db.anchors.rows ≠ [] ∨ db.events.rows = []
  | _ => True

/-- What holds once the anchors of `db₁` are re-signed. -/
structure Retired (hmac : Bytes → Bytes → Digest) (oldKey newKey : Bytes) (db₁ db : Db) : Prop where
  numbered : Numbered db
  seq : db₁.anchorSeq ≤ db.anchorSeq
  none_old : ∀ a ∈ db.anchors.rows, ¬a.signed hmac oldKey
  origin : ∀ a ∈ db.anchors.rows, a.id ≤ db₁.anchorSeq →
    ∃ a₁ ∈ db₁.anchors.rows, a = a₁.resigned hmac oldKey newKey

section Retired

variable (hdb : Retired hmac oldKey newKey db₁ db)

include hdb

theorem Retired.of_subset (hseq : db'.anchorSeq = db.anchorSeq)
    (hsub : ∀ a ∈ db'.anchors.rows, a ∈ db.anchors.rows) : Retired hmac oldKey newKey db₁ db' where
  numbered := hdb.numbered.of_ids hseq fun a ha => ⟨a, hsub a ha, rfl⟩
  seq := hseq ▸ hdb.seq
  none_old := fun a ha => hdb.none_old a (hsub a ha)
  origin := fun a ha => hdb.origin a (hsub a ha)

/-- A gateway with the old key adds nothing to a table in which it finds an anchor. -/
theorem Retired.anchor_old (hkey : c.key = oldKey)
    (hfinds : db.anchors.rows ≠ [] ∨ db.events.rows = [])
    (h : anchorHead hmac db c = .ok (a, db')) : db' = db := by
  rcases anchorHead_ok h with hsame | ⟨head, anchors, hhead, hlast, -, -⟩
  · exact hsame
  exfalso
  rcases hfinds with hfinds | hempty
  · have hnewest : db.anchors.newest = some (db.anchors.rows.getLast hfinds) :=
      getLast?_eq_some_getLast hfinds
    have hmem := getLast_mem hfinds
    rw [Db.lastAnchor, hnewest, Option.getD_some, hkey] at hlast
    rcases hlast with hzero | hsigned
    · exact (hdb.numbered.ids _ hmem).1.ne' hzero
    · exact hdb.none_old _ hmem hsigned
  · rw [Ordered.newest, hempty] at hhead
    cases hhead

/-- A gateway with the new key adds an anchor of its own. -/
theorem Retired.add (hkey : c.key = newKey) (hne : newKey ≠ [])
    (hapart : (c.anchor hmac db head).Apart hmac oldKey newKey)
    (hadd : db.anchors.add (c.anchor hmac db head) = some anchors) :
    Retired hmac oldKey newKey db₁
      { db with anchors, anchorSeq := db.anchorSeq + 1 + c.skipped } := by
  have hrows := (Ordered.add_eq_some hadd).1
  have hseq := hdb.seq
  refine ⟨hdb.numbered.add hadd, by dsimp only; omega, ?_, ?_⟩
  · rw [hrows, forall_mem_append, forall_mem_singleton]
    refine ⟨hdb.none_old, hapart.not_signed_old ?_⟩
    exact Anchor.signed_iff.mpr ⟨hne, hkey ▸ rfl⟩
  · rw [hrows, forall_mem_append, forall_mem_singleton]
    refine ⟨hdb.origin, fun hid => ?_⟩
    have : db.anchorSeq + 1 + c.skipped ≤ db₁.anchorSeq := hid
    omega

theorem Retired.resign
    (h : resignAnchors hmac db oldKey newKey = .ok (resigned, skipped, db')) : db' = db := by
  obtain ⟨-, -, hrows, hevents, hanchorSeq, heventSeq⟩ := resignAnchors_ok h
  have hsame : db'.anchors.rows = db.anchors.rows := by
    rw [hrows]
    refine (map_congr_left fun a ha => ?_).trans (map_id' _)
    exact Anchor.resigned_eq_self (hdb.none_old a ha)
  exact Db.ext hevents (Ordered.ext hsame) heventSeq hanchorSeq

/-- **One call** of the rotation. -/
theorem Retired.step (hne : newKey ≠ []) (hrotation : InRotation hmac oldKey newKey db l)
    (hfinds : FindsAnchor oldKey db l) (h : auditStep sha256 hmac db l = some db') :
    Retired hmac oldKey newKey db₁ db' := by
  rcases auditStep_cases h with rfl | hleaves
  · exact hdb
  cases l with
  | record c =>
    obtain ⟨e, hcall⟩ := hleaves
    obtain ⟨hash, -, -, -, -, hanchors, hseq⟩ := record_ok hcall
    exact hdb.of_subset hseq fun a ha => hanchors ▸ ha
  | anchor c =>
    obtain ⟨a, hcall⟩ := hleaves
    rcases hrotation.1 with hold | hnew
    · rw [hdb.anchor_old hold (hfinds hold) hcall]
      exact hdb
    · rcases anchorHead_ok hcall with rfl | ⟨head, anchors, hhead, -, hadd, rfl⟩
      · exact hdb
      · exact hdb.add hnew hne (hrotation.2 head hhead) hadd
  | resign k k' =>
    obtain ⟨resigned, skipped, hcall⟩ := hleaves
    obtain ⟨rfl, rfl⟩ := hrotation
    rw [hdb.resign hcall]
    exact hdb
  | reseal =>
    obtain ⟨res, hcall⟩ := hleaves
    obtain ⟨s, -, rfl⟩ := reseal_ok hcall
    exact hdb.of_subset rfl fun a ha => mem_of_mem_filter ha

end Retired

/-- What `ResignAnchors` leaves. -/
theorem Retired.of_resign {db₂ : Db} (hnum : Numbered db₁)
    (hapart : ∀ a ∈ db₁.anchors.rows, a.Apart hmac oldKey newKey)
    (h : resignAnchors hmac db₁ oldKey newKey = .ok (resigned, skipped, db₂)) :
    Retired hmac oldKey newKey db₁ db₂ := by
  obtain ⟨-, hne, hrows, -, hseq, -⟩ := resignAnchors_ok h
  have hfrom : ∀ a ∈ db₂.anchors.rows, ∃ a₁ ∈ db₁.anchors.rows,
      a = a₁.resigned hmac oldKey newKey := by
    intro a ha
    rw [hrows] at ha
    obtain ⟨a₁, ha₁, rfl⟩ := mem_map.mp ha
    exact ⟨a₁, ha₁, rfl⟩
  refine ⟨hnum.of_ids hseq fun a ha => ?_, hseq.ge, fun a ha => ?_, fun a ha _ => hfrom a ha⟩
  · obtain ⟨a₁, ha₁, rfl⟩ := hfrom a ha
    exact ⟨a₁, ha₁, (a₁.resigned_id).symm⟩
  · obtain ⟨a₁, ha₁, rfl⟩ := hfrom a ha
    exact (hapart a₁ ha₁).not_signed_old_resigned hne

/-- **A rotation retires the old key.** Let `ResignAnchors` have committed on any table of
anchors, and any calls of the rotation followed in which a gateway with the old key
finds a stored anchor or nothing to anchor. Then such a gateway still stores nothing;
each anchor of before that is still there has the new signature if it was genuine, and
is as it was if it had neither; and re-signing again changes nothing. -/
theorem rotation_retires_old_key (db₁ db₂ db : Db) (resigned skipped : Nat) (ls : List AuditCall)
    (hnum : Numbered db₁) (hapart : ∀ a ∈ db₁.anchors.rows, a.Apart hmac oldKey newKey)
    (hresign : resignAnchors hmac db₁ oldKey newKey = .ok (resigned, skipped, db₂))
    (hrun : RunWhere (auditStep sha256 hmac)
      (fun db l => InRotation hmac oldKey newKey db l ∧ FindsAnchor oldKey db l) db₂ ls db) :
    (∀ c : AnchorCall, c.key = oldKey → FindsAnchor oldKey db (.anchor c) →
        auditStep sha256 hmac db (.anchor c) = some db) ∧
      (db₂.anchors.rows.map Anchor.id = db₁.anchors.rows.map Anchor.id ∧
        ∀ a₁ ∈ db₁.anchors.rows, ∀ a ∈ db.anchors.rows, a.id = a₁.id →
          ((a₁.signed hmac oldKey ∨ a₁.signed hmac newKey) → a.signed hmac newKey ∧
            a = { a₁ with mac := a₁.macUnder hmac newKey }) ∧
          (¬a₁.signed hmac oldKey → ¬a₁.signed hmac newKey → a = a₁)) ∧
      auditStep sha256 hmac db (.resign oldKey newKey) = some db := by
  obtain ⟨-, hne, hrows, -⟩ := resignAnchors_ok hresign
  have hdb : Retired hmac oldKey newKey db₁ db :=
    hrun.keeps _ (fun _ _ _ hcond hdb hstep => hdb.step hne hcond.1 hcond.2 hstep)
      (.of_resign hnum hapart hresign)
  refine ⟨fun c hkey hfinds => ?_, ⟨?_, fun a₁ ha₁ a ha hid => ?_⟩, ?_⟩
  · cases hcall : anchorHead hmac db c with
    | error err => simp only [auditStep, hcall]
    | ok r =>
      obtain ⟨a, db'⟩ := r
      simp only [auditStep, hcall, hdb.anchor_old hkey (hfinds hkey) hcall]
  · rw [hrows, map_map]
    exact map_congr_left fun a _ => a.resigned_id
  · -- the id says which of the old anchors it was
    obtain ⟨a₁', ha₁', rfl⟩ := hdb.origin a ha (hid ▸ (hnum.ids a₁ ha₁).2)
    obtain rfl : a₁' = a₁ := Ordered.eq_of_key_eq ha₁' ha₁ (by rw [← hid, Anchor.resigned_id])
    exact ⟨fun h => ⟨Anchor.signed_resigned hne h, Anchor.resigned_eq_of_signed h⟩,
      fun hold _ => Anchor.resigned_eq_self hold⟩
  · cases hcall : resignAnchors hmac db oldKey newKey with
    | error err => simp only [auditStep, hcall]
    | ok r =>
      obtain ⟨resigned, skipped, db'⟩ := r
      simp [auditStep, hcall, hdb.resign hcall]

/-! ## A table with and without an anchor -/

/-- A MAC that is the length of the key and the message. -/
def keyedSum (key m : Bytes) : Digest := lengthSum (key ++ m)

theorem keyedSum_apart (m : Bytes) : keyedSum (lit "old") m ≠ keyedSum (lit "newer") m := by
  intro h
  have hbyte : UInt8.ofNat (lit "old" ++ m).length = UInt8.ofNat (lit "newer" ++ m).length :=
    replicate_right_injective (by decide) (Subtype.ext_iff.mp h)
  have hlen := congrArg UInt8.toNat hbyte
  rw [UInt8.toNat_ofNat', UInt8.toNat_ofNat', length_append, length_append] at hlen
  have hold : (lit "old").length = 3 := by decide
  have hnew : (lit "newer").length = 5 := by decide
  omega

/-- A stale gateway tries again after the rotation: the anchor stays re-signed. -/
theorem stale_gateway_refused :
    ∃ db₁ db₂ db₃ resigned skipped, db₁.anchors.rows.length = 1 ∧
      resignAnchors keyedSum db₁ (lit "old") (lit "newer") = .ok (resigned, skipped, db₂) ∧
      auditStep lengthSum keyedSum db₂ (.anchor ⟨lit "old", 0, 0⟩) = some db₃ ∧
      auditStep lengthSum keyedSum db₃ (.resign (lit "old") (lit "newer")) = some db₃ := by
  have hexec : (Lib.exec (auditStep lengthSum keyedSum) Db.empty
      [recordDetails "" "\x7b\x7d", .anchor ⟨lit "old", 0, 0⟩]).any
        (fun db => db.anchors.rows.length = 1) := by decide +kernel
  obtain ⟨db₁, hrun, hone⟩ := Run.of_exec_any hexec
  have hone := of_decide_eq_true hone
  cases hresign : resignAnchors keyedSum db₁ (lit "old") (lit "newer") with
  | error err => cases hresign
  | ok r =>
    obtain ⟨resigned, skipped, db₂⟩ := r
    have hfinds : db₂.anchors.rows ≠ [] := by
      rw [(resignAnchors_ok hresign).2.2.1, ne_eq, map_eq_nil_iff]
      exact ne_nil_of_length_pos (by omega)
    obtain ⟨db₃, hstep⟩ : ∃ db₃,
        auditStep lengthSum keyedSum db₂ (.anchor ⟨lit "old", 0, 0⟩) = some db₃ := ⟨_, rfl⟩
    have hretired := rotation_retires_old_key db₁ db₂ db₃ resigned skipped
      [.anchor ⟨lit "old", 0, 0⟩] (numbered_of_run hrun) (fun a _ => keyedSum_apart _) hresign
      (.snoc .nil ⟨⟨.inl rfl, fun _ _ => keyedSum_apart _⟩, fun _ => .inl hfinds⟩ hstep)
    exact ⟨db₁, db₂, db₃, resigned, skipped, hone, hresign, hstep, hretired.2.2⟩

/-- **An empty table stops no one.** The first anchor of a log is written after the
rotation, by a gateway that still holds the old key. -/
theorem stale_gateway_anchors :
    ∃ db₁ db₂ db₃ resigned skipped,
      Run (auditStep lengthSum keyedSum) Db.empty [recordDetails "" "\x7b\x7d"] db₁ ∧
      resignAnchors keyedSum db₁ (lit "old") (lit "newer") = .ok (resigned, skipped, db₂) ∧
      auditStep lengthSum keyedSum db₂ (.anchor ⟨lit "old", 0, 0⟩) = some db₃ ∧
      ∃ a ∈ db₃.anchors.rows, a.signed keyedSum (lit "old") ∧ ¬a.signed keyedSum (lit "newer") := by
  obtain ⟨db₁, hrun, r, hr, db₃, hstep, a, ha, hold, hnew⟩ : ∃ db₁,
      Run (auditStep lengthSum keyedSum) Db.empty [recordDetails "" "\x7b\x7d"] db₁ ∧
      ∃ r ∈ (resignAnchors keyedSum db₁ (lit "old") (lit "newer")).toOption,
      ∃ db₃ ∈ auditStep lengthSum keyedSum r.2.2 (.anchor ⟨lit "old", 0, 0⟩),
        ∃ a ∈ db₃.anchors.rows, a.signed keyedSum (lit "old") ∧
          a.signed keyedSum (lit "newer") = false :=
    Run.of_exec_decide (by decide +kernel)
  exact ⟨db₁, _, db₃, _, _, hrun, Lib.mem_toOption.mp hr, hstep, a, ha, hold, by simp [hnew]⟩

end Zanskar.Audit
