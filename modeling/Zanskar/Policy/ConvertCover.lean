import Zanskar.Lib.Pieces
import Zanskar.Policy.Convert

/-!
# What a converted policy covers

The grants `convert` writes cover a target and a protocol exactly when the
legacy policy did (`convert_covers_iff`), for a target the inventory knows and
a protocol its kind serves, as long as the key of a tag grant tells the policy's
tag maps apart.

`tagKey` always tells kinds apart (`tagKey_inj`). `canonical` does not tell all
tag maps apart, since NUL is what ends each key and value.
-/

namespace Zanskar

open Function Lib List

/-! ## The key of a tag grant -/

variable {kind : Kind} {newID : Nat → String} {id : String} {protos : List Protocol} {tags : TagMap}
  {grants : List Grant} {st : ConvertState} {p : Protocol}

/-- A tag map as characters, each key and value ended by NUL. -/
theorem toList_canonical :
    (canonical tags).toList = tags.toList.flatMap fun kv =>
      kv.1.toList ++ '\x00' :: (kv.2.toList ++ ['\x00']) := by
  have key : ∀ (l : List (String × String)) (b : String),
      (l.foldl (fun b kv => b ++ kv.1 ++ "\x00" ++ kv.2 ++ "\x00") b).toList =
        b.toList ++ l.flatMap fun kv =>
          kv.1.toList ++ '\x00' :: (kv.2.toList ++ ['\x00']) := by
    intro l
    induction l with
    | nil => intro b; simp
    | cons kv l ih =>
      intro b
      rw [foldl_cons, ih]
      simp
  simpa [canonical] using key tags.toList ""

theorem canonical_eq_empty_iff : canonical tags = "" ↔ tags = ∅ := by
  refine ⟨fun h => ?_, fun h => by rw [h]; rfl⟩
  have hchars := congrArg String.toList h
  rw [toList_canonical] at hchars
  rw [← Std.ExtTreeMap.toList_eq_nil_iff]
  cases hl : tags.toList with
  | nil => rfl
  | cons kv l => simp [hl] at hchars

/-- The key tells kinds apart, and tag maps as far as `canonical` does. -/
theorem tagKey_inj {kind' : Kind} {tags' : TagMap} (hk : kind ∈ kinds) (hk' : kind' ∈ kinds)
    (h : tagKey kind tags = tagKey kind' tags') :
    kind = kind' ∧ canonical tags = canonical tags' := by
  have hchars := congrArg String.toList h
  simp only [tagKey, String.toList_append, append_assoc] at hchars
  have hfree : ∀ k ∈ kinds, '\x00' ∉ k.text.toList := by decide
  obtain ⟨htext, hcanon⟩ := append_cons_inj_of_not_mem (hfree kind hk) (hfree kind' hk') hchars
  refine ⟨?_, String.toList_inj.mp hcanon⟩
  have hinj : ∀ k ∈ kinds, ∀ k' ∈ kinds, k.text.toList = k'.text.toList → k = k' := by decide
  exact hinj kind hk kind' hk' htext

/-! ## The main loop: names -/

/-- The state grants protocol `p` on the id `id` of kind `kind`. -/
def ConvertState.Names (st : ConvertState) (kind : Kind) (id : String) (p : Protocol) : Prop :=
  kindServes kind p = true ∧ ∃ protos, st.named kind id = some protos ∧ p ∈ protos

/-- The ids listed for a kind are those with protocols. -/
def ConvertState.Ordered (st : ConvertState) : Prop :=
  ∀ kind id, id ∈ st.order kind ↔ (st.named kind id).isSome

/-- The selector names the id, as a thing of that kind, with that protocol. -/
def Pair.Names (inv : LegacyInventory) (pr : Pair) (kind : Kind) (id : String)
    (p : Protocol) : Prop :=
  kindServes kind p = true ∧ p ∈ pr.protos ∧
    ((id ∈ pr.sel.targets ∧ inv.targetKind id = some kind) ∨
      (kind = .autoscaling ∧ id ∈ pr.sel.asgs ∧ inv.asgs id = true))

theorem ConvertState.addNamed_ordered (h : st.Ordered) : (st.addNamed kind id protos).Ordered := by
  intro kind' id'
  unfold addNamed
  by_cases hk : kind' = kind
  · subst hk
    by_cases hid : id' = id
    · subst hid
      cases hn : st.named kind' id' with
      | none => simp
      | some ps => simp [h kind' id', hn]
    · cases hn : st.named kind' id with
      | none | some => simp [hid, h kind' id']
  · cases hn : st.named kind id with
    | none | some => simp [hk, h kind' id']

section Names

variable (inv : LegacyInventory) (protos : List Protocol) (st : ConvertState) (id : String)
  (kind' : Kind) (id' : String) (p : Protocol)

/-- One more name adds its protocols, and nothing else. -/
theorem ConvertState.addNamed_names (kind : Kind) :
    (st.addNamed kind id protos).Names kind' id' p ↔
      st.Names kind' id' p ∨
        (kindServes kind' p ∧ kind' = kind ∧ id' = id ∧ p ∈ protos) := by
  unfold Names addNamed
  by_cases hk : kind' = kind
  · subst hk
    by_cases hid : id' = id
    · subst hid
      cases hn : st.named kind' id' with
      | none => simp [mem_union]
      | some ps =>
        simp only [update_self, Option.some.injEq, exists_eq_left', mem_union,
          Option.getD_some, true_and]
        tauto
    · simp [hid]
  · simp [hk]

/-- An id whose kind serves none of the protocols is dropped, and names nothing. -/
theorem ConvertState.addServable_names (why : String) :
    (if (servable kind protos).isEmpty then st.drop id why
        else st.addNamed kind id (servable kind protos)).Names kind' id' p ↔
      st.Names kind' id' p ∨
        (kindServes kind' p ∧ p ∈ protos ∧ kind' = kind ∧ id' = id) := by
  split
  · rename_i hemp
    refine ⟨.inl, fun h => h.resolve_right ?_⟩
    rintro ⟨hs, hp, rfl, -⟩
    exact ne_nil_of_mem (mem_servable.mpr ⟨hs, hp⟩) (isEmpty_iff.mp hemp)
  · rw [addNamed_names, mem_servable]
    grind

theorem ConvertState.addTarget_names :
    (st.addTarget inv protos id).Names kind' id' p ↔
      st.Names kind' id' p ∨
        (kindServes kind' p ∧ p ∈ protos ∧ id' = id ∧
          inv.targetKind id = some kind') := by
  unfold addTarget
  cases hk : inv.targetKind id with
  | none => simp [drop, Names]
  | some kind =>
    simp only [addServable_names, Option.some.injEq]
    grind

theorem ConvertState.addASG_names :
    (st.addASG inv protos id).Names kind' id' p ↔
      st.Names kind' id' p ∨
        (kindServes kind' p ∧ p ∈ protos ∧ kind' = .autoscaling ∧ id' = id ∧
          inv.asgs id) := by
  unfold addASG
  cases hk : inv.asgs id with
  | false => simp [drop, Names]
  | true =>
    rw [if_neg (by decide), addServable_names]
    simp

end Names

/-- The loops over ids keep the names ordered, and leave the tag grants alone. -/
def ConvertState.NamesOnly (st s : ConvertState) : Prop :=
  s.Ordered ∧ s.tags = st.tags ∧ s.tagOrder = st.tagOrder

section NamesOnly

variable {inv : LegacyInventory} {protos : List Protocol} {st s : ConvertState} {id : String}

theorem ConvertState.NamesOnly.addTarget (h : st.NamesOnly s) :
    st.NamesOnly (s.addTarget inv protos id) := by
  unfold ConvertState.addTarget
  split
  · exact h
  · split
    · exact h
    · exact ⟨addNamed_ordered h.1, h.2⟩

theorem ConvertState.NamesOnly.addASG (h : st.NamesOnly s) :
    st.NamesOnly (s.addASG inv protos id) := by
  unfold ConvertState.addASG
  split
  · exact h
  · split
    · exact h
    · exact ⟨addNamed_ordered h.1, h.2⟩

end NamesOnly

/-! ## The main loop: tag rules -/

/-- The state holds a rule for the tags `m` on a kind, with protocol `p`. -/
def ConvertState.TagRule (st : ConvertState) (kind : Kind) (m : TagMap) (p : Protocol) : Prop :=
  ∃ t, st.tags (tagKey kind m) = some t ∧ p ∈ t.protos

/-- The tag grants in the making stand under their own key, made from tags in
`T`, and are listed. -/
structure ConvertState.Keyed (T : Set TagMap) (st : ConvertState) : Prop where
  holds : ∀ key t, st.tags key = some t →
    t.kind ∈ kinds ∧ (∀ p ∈ t.protos, kindServes t.kind p = true) ∧
      ∃ m ∈ T, m ≠ ∅ ∧ key = tagKey t.kind m ∧ t.keys = singleValues m
  listed : ∀ key, key ∈ st.tagOrder ↔ (st.tags key).isSome

variable {inv : LegacyInventory} {p : LegacyPolicy} {proto : Protocol} {m : TagMap} {t : TargetRef}

section Tags

variable {T : Set TagMap} {st : ConvertState} {sel : TagMap} {protos : List Protocol}
  {kind : Kind}

/-- One more tag grant, or one with more protocols. -/
theorem ConvertState.Keyed.update {key : String} {t : Tagged} {order : List String}
    (h : st.Keyed T)
    (ht : t.kind ∈ kinds ∧ (∀ p ∈ t.protos, kindServes t.kind p) ∧
      ∃ m ∈ T, m ≠ ∅ ∧ key = tagKey t.kind m ∧ t.keys = singleValues m)
    (horder : ∀ key', key' ∈ order ↔ key' = key ∨ key' ∈ st.tagOrder) :
    Keyed T { st with tags := Function.update st.tags key (some t), tagOrder := order } := by
  refine ⟨fun key' t' ht' => ?_, fun key' => ?_⟩
  · by_cases hk : key' = key
    · subst hk
      simp only [update_self] at ht'
      cases ht'
      exact ht
    · simp only [update_of_ne hk] at ht'
      exact h.holds key' t' ht'
  · rw [horder, h.listed key']
    by_cases hk : key' = key
    · subst hk
      simp
    · simp [hk]

theorem ConvertState.Keyed.addTagged (h : st.Keyed T) (hsel : sel ∈ T) (hne : sel ≠ ∅)
    (hkind : kind ∈ kinds) : (st.addTagged sel protos kind).Keyed T := by
  unfold ConvertState.addTagged
  split
  · exact h
  split
  · -- the key is there: the grant under it has been made for this kind
    rename_i _ t ht
    obtain ⟨htk, -, m, hm, hmne, hkey, hkeys⟩ := h.holds _ t ht
    have hsame := (tagKey_inj hkind htk hkey).1
    refine h.update ⟨htk, fun p hp => ?_, m, hm, hmne, hkey, hkeys⟩ fun key => ?_
    · rw [← hsame]
      exact (mem_union.mp hp).1
    · have hlisted := (h.listed (tagKey kind sel)).mpr (by simp [ht])
      exact ⟨.inr, fun hor => hor.elim (fun hk => hk ▸ hlisted) fun hk => hk⟩
  · -- a new key, for this selector's own tags
    refine h.update ⟨hkind, fun p hp => (mem_servable.mp hp).1, sel, hsel, hne, rfl, rfl⟩
      fun key => ?_
    rw [mem_append, mem_singleton, or_comm]

/-- One more kind of one selector adds its protocols under the selector's tags,
and nothing else, where `canonical` tells the tag maps apart. -/
theorem ConvertState.Keyed.addTagged_tagRule (h : st.Keyed T) (hinj : Set.InjOn canonical T)
    (hsel : sel ∈ T) (hkind : kind ∈ kinds) {kind' : Kind} (hkind' : kind' ∈ kinds) (hm : m ∈ T)
    (p : Protocol) :
    (st.addTagged sel protos kind).TagRule kind' m p ↔
      st.TagRule kind' m p ∨
        (kind' = kind ∧ m = sel ∧ kindServes kind p ∧ p ∈ protos) := by
  unfold ConvertState.addTagged ConvertState.TagRule
  by_cases hemp : (servable kind protos).isEmpty
  · have hnone : ¬(kindServes kind p ∧ p ∈ protos) := fun hq =>
      ne_nil_of_mem (mem_servable.mpr hq) (isEmpty_iff.mp hemp)
    simp [hemp, hnone]
  simp only [hemp, Bool.false_eq_true, if_false]
  by_cases hkey : tagKey kind' m = tagKey kind sel
  · obtain ⟨rfl, hcanon⟩ := tagKey_inj hkind' hkind hkey
    obtain rfl := hinj hm hsel hcanon
    cases ht : st.tags (tagKey kind' m) with
    | none => simp [mem_servable]
    | some t =>
      simp only [update_self, Option.some.injEq, exists_eq_left', mem_union, mem_servable, true_and]
      obtain ⟨htk, hserved, m', -, -, hkey', -⟩ := h.holds _ t ht
      have hsame := (tagKey_inj hkind' htk hkey').1
      have hp := hserved p
      rw [← hsame] at hp
      tauto
  · have hne : ¬(kind' = kind ∧ m = sel ∧ kindServes kind p ∧ p ∈ protos) := by
      rintro ⟨rfl, rfl, -⟩
      exact hkey rfl
    cases ht : st.tags (tagKey kind sel) with
    | none | some => simp [hkey, hne]

end Tags

/-! ## The main loop: one selector, and all of them -/

theorem ConvertState.addTagged_named (sel : TagMap) (protos : List Protocol) (kind : Kind) :
    (st.addTagged sel protos kind).named = st.named ∧
      (st.addTagged sel protos kind).order = st.order := by
  unfold addTagged
  split
  · exact ⟨rfl, rfl⟩
  · split <;> exact ⟨rfl, rfl⟩

/-- What the main loop keeps. -/
structure ConvertState.Inv (T : Set TagMap) (st : ConvertState) : Prop where
  ordered : st.Ordered
  keyed : st.Keyed T

/-- The selector's tags, if it has any, are in `T`. -/
def Pair.TagsIn (T : Set TagMap) (pr : Pair) : Prop :=
  pr.sel.tags ≠ ∅ → pr.sel.tags ∈ T

/-- The selector has these tags, with that protocol. -/
def Pair.TagRule (pr : Pair) (kind : Kind) (m : TagMap) (p : Protocol) : Prop :=
  m ≠ ∅ ∧ m = pr.sel.tags ∧ kindServes kind p = true ∧ p ∈ pr.protos

section Selector

variable {T : Set TagMap} {st : ConvertState} (inv : LegacyInventory) {pr : Pair}

namespace ConvertState

/-- The state after the two loops over a selector's ids. -/
def addIDs (st : ConvertState) (pr : Pair) : ConvertState :=
  pr.sel.asgs.foldl (addASG inv pr.protos) (pr.sel.targets.foldl (addTarget inv pr.protos) st)

theorem addPair_eq :
    st.addPair inv pr =
      if pr.sel.tags.isEmpty then st.addIDs inv pr
      else kinds.foldl (addTagged pr.sel.tags pr.protos) (st.addIDs inv pr) := rfl

theorem addIDs_namesOnly (h : st.Ordered) : st.NamesOnly (st.addIDs inv pr) :=
  foldl_keeps st.NamesOnly (fun _ _ _ hs => hs.addASG)
    (foldl_keeps st.NamesOnly (fun _ _ _ hs => hs.addTarget) ⟨h, rfl, rfl⟩)

theorem Inv.addIDs (h : st.Inv T) : (st.addIDs inv pr).Inv T := by
  obtain ⟨hord, ht, ho⟩ := @addIDs_namesOnly st inv pr h.ordered
  refine ⟨hord, ⟨fun key t hkey => h.keyed.holds key t (ht ▸ hkey), fun key => ?_⟩⟩
  rw [ht, ho]
  exact h.keyed.listed key

theorem Inv.addPair (h : st.Inv T) (hpr : pr.TagsIn T) :
    (st.addPair inv pr).Inv T := by
  rw [addPair_eq]
  split
  · exact h.addIDs inv
  · rename_i hne
    rw [Std.ExtTreeMap.isEmpty_iff] at hne
    refine foldl_keeps (Inv T) (fun s kind hk hs => ⟨?_, ?_⟩) (h.addIDs inv)
    · obtain ⟨hn, ho⟩ := s.addTagged_named pr.sel.tags pr.protos kind
      intro kind' id'
      rw [hn, ho]
      exact hs.ordered kind' id'
    · exact hs.keyed.addTagged (hpr hne) hne hk

/-- **One selector's names.** -/
theorem addPair_names (pr : Pair) (kind : Kind) (id : String) (p : Protocol) :
    (st.addPair inv pr).Names kind id p ↔ st.Names kind id p ∨ pr.Names inv kind id p := by
  have hids : (st.addIDs inv pr).Names kind id p ↔
      st.Names kind id p ∨ pr.Names inv kind id p := by
    unfold addIDs
    rw [foldl_gathers (fun _ => True) (fun s : ConvertState => s.Names kind id p)
        (fun _ _ _ _ => trivial) (fun s i _ _ => s.addASG_names inv pr.protos i kind id p)
        trivial,
      foldl_gathers (fun _ => True) (fun s : ConvertState => s.Names kind id p)
        (fun _ _ _ _ => trivial) (fun s i _ _ => s.addTarget_names inv pr.protos i kind id p)
        trivial]
    unfold Pair.Names
    grind
  rw [addPair_eq]
  split
  · exact hids
  · -- the tag grants do not touch the names
    have hframe := foldl_keeps (l := kinds) (f := addTagged pr.sel.tags pr.protos)
      (fun s : ConvertState => s.named = (st.addIDs inv pr).named)
      (fun s k _ hs => (s.addTagged_named pr.sel.tags pr.protos k).1.trans hs) rfl
    rw [← hids]
    unfold Names
    rw [hframe]

/-- **One selector's tags.** -/
theorem Inv.addPair_tagRule (h : st.Inv T) (hinj : Set.InjOn canonical T)
    (hpr : pr.TagsIn T) (hkind : kind ∈ kinds) (hm : m ∈ T) (p : Protocol) :
    (st.addPair inv pr).TagRule kind m p ↔
      st.TagRule kind m p ∨ pr.TagRule kind m p := by
  have hids : (st.addIDs inv pr).TagRule kind m p ↔ st.TagRule kind m p := by
    unfold TagRule
    rw [(addIDs_namesOnly inv h.ordered).2.1]
  rw [addPair_eq]
  split
  · rename_i hemp
    rw [Std.ExtTreeMap.isEmpty_iff] at hemp
    rw [hids]
    refine ⟨.inl, fun hor => hor.resolve_right ?_⟩
    rintro ⟨hne, rfl, -⟩
    exact hne hemp
  · rename_i hne
    rw [Std.ExtTreeMap.isEmpty_iff] at hne
    rw [foldl_gathers (Keyed T)
        (fun s : ConvertState => s.TagRule kind m p)
        (fun s k hk hs => hs.addTagged (hpr hne) hne hk)
        (fun s k hk hs => hs.addTagged_tagRule hinj (hpr hne) hk hkind hm p)
        (h.addIDs inv).keyed, hids]
    unfold Pair.TagRule
    grind

end ConvertState

end Selector

section Gather

variable {T : Set TagMap} {p : LegacyPolicy} (inv : LegacyInventory)

theorem ConvertState.inv_init : ConvertState.Inv T {} :=
  ⟨fun _ _ => by simp, ⟨fun _ _ h => by simp at h, fun _ => by simp⟩⟩

theorem LegacyPolicy.gather_inv (hT : ∀ pr ∈ p.pairs, pr.TagsIn T) : (p.gather inv).Inv T :=
  foldl_keeps (ConvertState.Inv T) (fun _ pr hpr hs => hs.addPair inv (hT pr hpr))
    ConvertState.inv_init

theorem LegacyPolicy.gather_names :
    (p.gather inv).Names kind id proto ↔ ∃ pr ∈ p.pairs, pr.Names inv kind id proto := by
  unfold LegacyPolicy.gather
  rw [foldl_gathers (fun _ => True) (fun s : ConvertState => s.Names kind id proto)
    (fun _ _ _ _ => trivial) (fun s pr _ _ => s.addPair_names inv pr kind id proto) trivial]
  simp [ConvertState.Names]

theorem LegacyPolicy.gather_tagRule (hinj : Set.InjOn canonical T)
    (hT : ∀ pr ∈ p.pairs, pr.TagsIn T) (hkind : kind ∈ kinds) (hm : m ∈ T) (proto : Protocol) :
    (p.gather inv).TagRule kind m proto ↔ ∃ pr ∈ p.pairs, pr.TagRule kind m proto := by
  unfold LegacyPolicy.gather
  rw [foldl_gathers (ConvertState.Inv T) (fun s : ConvertState => s.TagRule kind m proto)
    (fun _ pr hpr hs => hs.addPair inv (hT pr hpr))
    (fun _ pr hpr hs => hs.addPair_tagRule inv hinj (hT pr hpr) hkind hm proto)
    ConvertState.inv_init]
  simp [ConvertState.TagRule]

end Gather

/-! ## The grants -/

/-- The target's tags have every tag of `m`. -/
def Carries (m tags : TagMap) : Prop := ∀ k v : String, m[k]? = some v → tags[k]? = some v

/-- A legacy selector's tag rule matches as the selector did. -/
theorem singleValues_matches :
    (TagMatch.mk (singleValues m) protos).matches tags ↔ m ≠ ∅ ∧ Carries m tags := by
  rw [TagMatch.matches_iff]
  refine and_congr (not_congr Std.ExtTreeMap.map_eq_empty_iff) ?_
  simp only [singleValues, Std.ExtTreeMap.getElem?_map, Carries]
  constructor
  · intro h k v hv
    obtain ⟨w, hw, hmem⟩ := h k [v] (by simp [hv])
    rw [hw, mem_singleton.mp hmem]
  · intro h k vs hvs
    obtain ⟨v, hv, rfl⟩ := Option.map_eq_some_iff.mp hvs
    exact ⟨v, h k v hv, mem_singleton_self v⟩

section Cover

variable {p : LegacyPolicy} {st : ConvertState} {t : TargetRef} {proto : Protocol}

theorem namedGrant_covers (hord : st.Ordered) :
    (namedGrant p st id kind).covers t proto ↔
      kind = t.kind ∧ t.named ≠ "" ∧ st.Names t.kind t.named proto := by
  rw [Grant.covers_iff]
  simp only [namedGrant, LegacyPolicy.conditions, reduceCtorEq, false_and, exists_false,
    or_false, mem_map, exists_exists_and_eq_and]
  refine and_congr_right fun hk => ?_
  subst hk
  have hin := hord t.kind t.named
  unfold ConvertState.Names
  cases hn : st.named t.kind t.named with
  | none =>
    have hnot : t.named ∉ st.order t.kind := by simp [hin, hn]
    simp only [reduceCtorEq, false_and, exists_false, and_false, iff_false]
    rintro ⟨-, -, i, hi, rfl, -⟩
    exact hnot hi
  | some ps =>
    have hmem : t.named ∈ st.order t.kind := by simp [hin, hn]
    constructor
    · rintro ⟨hs, hne, i, -, rfl, hp⟩
      exact ⟨hne, hs, ps, rfl, by simpa [hn] using hp⟩
    · rintro ⟨hne, hs, ps', hps, hp⟩
      cases hps
      exact ⟨hs, hne, t.named, hmem, rfl, by simpa [hn] using hp⟩

theorem taggedGrant_covers (tg : Tagged) :
    (taggedGrant p id tg).covers t proto ↔
      tg.kind = t.kind ∧ kindServes t.kind proto ∧ proto ∈ tg.protos ∧
        (TagMatch.mk tg.keys tg.protos).matches t.tags := by
  rw [Grant.covers_iff]
  simp [taggedGrant, LegacyPolicy.conditions]

/-- Some grant of the list covers the target with the protocol. -/
def Covered (t : TargetRef) (proto : Protocol) (grants : List Grant) : Prop :=
  ∃ g ∈ grants, g.covers t proto = true

theorem covered_append_singleton {g : Grant} :
    Covered t proto (grants ++ [g]) ↔ Covered t proto grants ∨ g.covers t proto := by
  unfold Covered
  simp only [mem_append, mem_singleton]
  grind

theorem covered_grantNamed (hord : st.Ordered) (kind : Kind) :
    Covered t proto (grantNamed p newID st grants kind) ↔
      Covered t proto grants ∨
        (kind = t.kind ∧ t.named ≠ "" ∧ st.Names t.kind t.named proto) := by
  unfold grantNamed
  split
  · -- no id of the kind: no name of it either
    rename_i hemp
    refine ⟨.inl, fun h => h.resolve_right ?_⟩
    rintro ⟨rfl, -, -, protos, hn, -⟩
    have hmem := (hord t.kind t.named).mpr (by simp [hn])
    rw [isEmpty_iff.mp hemp] at hmem
    cases hmem
  · rw [covered_append_singleton, namedGrant_covers hord]

theorem covered_grantTagged (key : String) :
    Covered t proto (grantTagged p newID st grants key) ↔
      Covered t proto grants ∨ ∃ tg, st.tags key = some tg ∧ tg.kind = t.kind ∧
        kindServes t.kind proto ∧ proto ∈ tg.protos ∧
          (TagMatch.mk tg.keys tg.protos).matches t.tags := by
  unfold grantTagged
  cases st.tags key with
  | none => simp
  | some tg =>
    simp only [Option.some.injEq, exists_eq_left']
    rw [covered_append_singleton, taggedGrant_covers]

/-- The grants written from a state cover what it names and what its tag rules
match. -/
theorem covered_grants {T : Set TagMap} (h : st.Inv T) :
    Covered t proto (st.tagOrder.foldl (grantTagged p newID st)
        (kinds.foldl (grantNamed p newID st) [])) ↔
      (t.kind ∈ kinds ∧ t.named ≠ "" ∧ st.Names t.kind t.named proto) ∨
        ∃ key tg, st.tags key = some tg ∧ tg.kind = t.kind ∧
          kindServes t.kind proto ∧ proto ∈ tg.protos ∧
            (TagMatch.mk tg.keys tg.protos).matches t.tags := by
  rw [foldl_gathers (fun _ => True) (Covered t proto) (fun _ _ _ _ => trivial)
      (fun grants key _ _ => covered_grantTagged key) trivial,
    foldl_gathers (fun _ => True) (Covered t proto) (fun _ _ _ _ => trivial)
      (fun grants kind _ _ => covered_grantNamed h.ordered kind) trivial]
  refine or_congr ?_ ?_
  · simp [Covered]
  · constructor
    · rintro ⟨key, -, tg, hrest⟩
      exact ⟨key, tg, hrest⟩
    · rintro ⟨key, tg, htg, hrest⟩
      exact ⟨key, (h.keyed.listed key).mpr (by simp [htg]), tg, htg, hrest⟩

end Cover

/-! ## Against the legacy policy -/

theorem LegacySelector.matches_iff {s : LegacySelector} :
    s.matches t ↔ (t.id ≠ "" ∧ t.id ∈ s.targets) ∨
      (t.asgID ≠ "" ∧ t.asgID ∈ s.asgs) ∨ (s.tags ≠ ∅ ∧ Carries s.tags t.tags) := by
  have htags : (s.tags.toList.all fun kv => decide (t.tags[kv.1]? = some kv.2)) ↔
      Carries s.tags t.tags := by
    simp [Carries, Std.ExtTreeMap.mem_toList_iff_getElem?_eq_some]
  unfold LegacySelector.matches
  rw [← htags]
  simp only [contains_iff_mem]
  by_cases h1 : t.id ≠ "" ∧ t.id ∈ s.targets
  · simp [h1]
  by_cases h2 : t.asgID ≠ "" ∧ t.asgID ∈ s.asgs
  · simp [h2]
  rw [if_neg h1, if_neg h2]
  by_cases h3 : s.tags = ∅
  · simp [h1, h2, h3]
  · simp [h1, h2, h3, Std.ExtTreeMap.isEmpty_iff]

/-- A policy covers what one of its selectors matches, with the selector's
protocols. -/
theorem LegacyPolicy.covers_iff :
    p.covers t proto ↔
      ∃ pr ∈ p.pairs, pr.sel.matches t ∧ proto ∈ pr.protos := by
  have hbase : (p.selector.matches t && p.protocols.contains proto) ↔
      ∃ pr ∈ (if !p.selector.empty && !p.protocols.isEmpty then
          [(⟨p.selector, p.protocols⟩ : Pair)] else []),
        pr.sel.matches t ∧ proto ∈ pr.protos := by
    split
    · simp
    · rename_i hskip
      -- an empty selector matches nothing, no protocols have none
      simp only [not_mem_nil, false_and, exists_false, iff_false]
      intro h
      rw [Bool.and_eq_true, contains_iff_mem, LegacySelector.matches_iff] at h
      apply hskip
      obtain ⟨hm, hp⟩ := h
      have hne := ne_nil_of_mem hp
      simp only [LegacySelector.empty, Bool.and_eq_true, Bool.not_eq_true',
        isEmpty_eq_false_iff, Bool.and_eq_false_iff]
      refine ⟨?_, hne⟩
      rcases hm with ⟨-, hm⟩ | ⟨-, hm⟩ | ⟨hm, -⟩
      · exact .inl (.inl (ne_nil_of_mem hm))
      · exact .inl (.inr (ne_nil_of_mem hm))
      · exact .inr (Bool.eq_false_iff.mpr fun he => hm (Std.ExtTreeMap.isEmpty_iff.mp he))
  unfold LegacyPolicy.covers LegacyPolicy.pairs
  rw [Bool.or_eq_true, hbase]
  simp only [mem_append, or_and_right, exists_or]
  simp

/-- The ref is a live target of its kind with no autoscaling group, or an
autoscaling one whose group is live. -/
inductive LegacyInventory.Consistent (inv : LegacyInventory) (t : TargetRef) : Prop
  | target (hkind : inv.targetKind t.id = some t.kind) (hasg : t.asgID = "")
  | group (hkind : t.kind = .autoscaling) (hid : t.id = "") (hlive : inv.asgs t.asgID = true)

/-- On a ref the inventory knows, the selector's names and tags reach what it
matched. -/
theorem Pair.matches_iff (hcons : inv.Consistent t) (hserves : kindServes t.kind proto)
    (pr : Pair) :
    (pr.sel.matches t ∧ proto ∈ pr.protos) ↔
      (t.named ≠ "" ∧ pr.Names inv t.kind t.named proto) ∨
        ∃ m, pr.TagRule t.kind m proto ∧ Carries m t.tags := by
  have htags : (∃ m, pr.TagRule t.kind m proto ∧ Carries m t.tags) ↔
      (pr.sel.tags ≠ ∅ ∧ Carries pr.sel.tags t.tags) ∧ proto ∈ pr.protos := by
    unfold Pair.TagRule
    constructor
    · rintro ⟨m, ⟨hne, rfl, -, hp⟩, hcarry⟩
      exact ⟨⟨hne, hcarry⟩, hp⟩
    · rintro ⟨⟨hne, hcarry⟩, hp⟩
      exact ⟨_, ⟨hne, rfl, hserves, hp⟩, hcarry⟩
  rw [LegacySelector.matches_iff, htags]
  unfold Pair.Names
  cases hcons with
  | target hkind hasg =>
    have hnot : t.kind ≠ .autoscaling := fun h => inv.target_not_autoscaling t.id (h ▸ hkind)
    have hnamed : t.named = t.id := if_neg hnot
    simp only [hnamed, hasg, hkind, hnot, hserves, ne_eq, not_true_eq_false, false_and,
      or_false, false_or, true_and, and_true]
    tauto
  | group hkind hid hlive =>
    have hnamed : t.named = t.asgID := if_pos hkind
    have hno : ∀ id, inv.targetKind id ≠ some t.kind := fun id h =>
      inv.target_not_autoscaling id (hkind ▸ h)
    simp only [hnamed, hid, hlive, hno, hserves, ne_eq, not_true_eq_false, false_and,
      and_false, and_true, false_or, true_and]
    tauto

/-- **The converted grants cover what the policy covered.** -/
theorem convert_covers_iff {T : Set TagMap} (hinj : Set.InjOn canonical T)
    (hT : ∀ pr ∈ p.pairs, pr.TagsIn T) (hcons : inv.Consistent t)
    (hserves : kindServes t.kind proto) :
    Covered t proto (convert p inv newID).grants ↔ p.covers t proto := by
  have hkinds := mem_kinds_of_kindServes hserves
  have hinv := p.gather_inv inv hT
  have hsel : p.covers t proto ↔
      (t.named ≠ "" ∧ (p.gather inv).Names t.kind t.named proto) ∨
        ∃ pr ∈ p.pairs, ∃ m, pr.TagRule t.kind m proto ∧ Carries m t.tags := by
    rw [LegacyPolicy.covers_iff, LegacyPolicy.gather_names]
    simp only [Pair.matches_iff hcons hserves, and_or_left, exists_or]
    refine or_congr ?_ Iff.rfl
    grind
  rw [hsel]
  unfold convert
  rw [covered_grants hinv]
  simp only [hkinds, true_and]
  refine or_congr Iff.rfl ⟨?_, ?_⟩
  · -- a tag grant was made from some selector's tags
    rintro ⟨key, tg, htg, hk, -, hp, hmatch⟩
    obtain ⟨-, -, m, hm, -, rfl, hkeys⟩ := hinv.keyed.holds key tg htg
    rw [hkeys, singleValues_matches] at hmatch
    have hrule : (p.gather inv).TagRule t.kind m proto := ⟨tg, hk ▸ htg, hp⟩
    obtain ⟨pr, hpr, hrule⟩ := (p.gather_tagRule inv hinj hT hkinds hm proto).mp hrule
    exact ⟨pr, hpr, m, hrule, hmatch.2⟩
  · rintro ⟨pr, hpr, m, hrule, hcarry⟩
    obtain ⟨hne, rfl, -, -⟩ := id hrule
    have hm := hT pr hpr hne
    obtain ⟨tg, htg, hp⟩ := (p.gather_tagRule inv hinj hT hkinds hm proto).mpr ⟨pr, hpr, hrule⟩
    obtain ⟨htk, -, m', hm', -, hkey, hkeys⟩ := hinv.keyed.holds _ tg htg
    obtain ⟨hkind, hcanon⟩ := tagKey_inj hkinds htk hkey
    have hsame := hinj hm hm' hcanon
    refine ⟨_, tg, htg, hkind.symm, hserves, hp, ?_⟩
    rw [hkeys, ← hsame, singleValues_matches]
    exact ⟨hne, hcarry⟩

theorem conditions_of_mem_convert {g : Grant} (h : g ∈ (convert p inv newID).grants) :
    ∃ id kind targets tags,
      g = { p.conditions id kind with targets := targets, tags := tags } := by
  let I (grants : List Grant) : Prop := ∀ g ∈ grants, ∃ id kind targets tags,
    g = { p.conditions id kind with targets := targets, tags := tags }
  have hnamed : I (kinds.foldl (grantNamed p newID (p.gather inv)) []) := by
    refine foldl_keeps I (fun grants kind _ hI => ?_) (by simp [I])
    unfold grantNamed
    split
    · exact hI
    · exact forall_mem_append.mpr ⟨hI, forall_mem_singleton.mpr ⟨_, _, _, none, rfl⟩⟩
  refine foldl_keeps I (fun grants key _ hI => ?_) hnamed g h
  unfold grantTagged
  split
  · exact hI
  · exact forall_mem_append.mpr ⟨hI, forall_mem_singleton.mpr ⟨_, _, [], _, rfl⟩⟩

end Zanskar
