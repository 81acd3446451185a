import Zanskar.Idp.Links

/-!
# Listing a realm (`internal/idp/oidc/keycloak.go`)

`Users` reads a realm page by page, by offset, and counts its users before and after;
a count that changed makes it try once more. Users join and leave the realm meanwhile.
Each answer of the admin API is one step here, read from the realm as it is then.

- `leaver_hides_stayer` : the user at the start of the next page has moved back over it,
  and the sync disables their account;
- `stayed_are_listed` : where no removal moves someone unread back over the start of the
  next page, everyone who stayed is listed.
-/

namespace Zanskar

open Go Lib List

section

variable [Casing]

/-! ## Who a user is at their sign-in -/

/-- The provider's settings that `identityFromClaims` and `admit` read; no claim of a
listing names groups. -/
structure OIDCConfig where
  usernameClaim : String
  allowedDomains : List String
  trustEmail : Bool

/-- The claims of a token: each as a text, empty if it is absent or no text, and
`email_verified`. -/
structure Claims where
  text : String → String
  emailVerified : Option Bool

/-- The address and whether it may stand for the person. -/
def Claims.trusted (c : Claims) (cfg : OIDCConfig) : String × Bool :=
  let email :=
    if c.emailVerified = some false then "" else Casing.toLower (trimSpace (c.text "email"))
  (email, email ≠ "" && (c.emailVerified = some true ||
    (c.emailVerified = none && cfg.trustEmail)))

/-- The username before it is trimmed and lowered. -/
def Claims.username (c : Claims) (cfg : OIDCConfig) : Except String String :=
  let (email, emailTrusted) := c.trusted cfg
  if cfg.usernameClaim = "email" then
    if emailTrusted then .ok email
    else .error "the username claim is the email address, and the provider has not verified it"
  else
    .ok (firstNonEmpty (c.text cfg.usernameClaim)
      (firstNonEmpty (c.text "preferred_username") (if emailTrusted then email else "")))

/-- `identityFromClaims`. -/
def identityFromClaims (subject : String) (c : Claims) (cfg : OIDCConfig) :
    Except String (Person × Bool) := do
  let username := Casing.toLower (trimSpace (← c.username cfg))
  if username = "" then .error "no usable username claim"
  else
    let (email, emailTrusted) := c.trusted cfg
    return (⟨subject, username, c.text "name", email⟩, emailTrusted)

/-- `domainAllowed`: what follows the last `@`. -/
def domainAllowed (email : String) (domains : List String) : Bool :=
  email.toList.contains '@' &&
    domains.any fun allowed => Casing.equalFold (trimSpace allowed)
      (Casing.toLower (String.ofList (email.toList.rtakeWhile (· ≠ '@'))))

/-- `admit`, with the failure code of a sign-in. -/
def admitIdentity (ident : Person) (emailTrusted : Bool) (cfg : OIDCConfig) : Except String Unit :=
  if cfg.allowedDomains = [] then .ok ()
  else if !emailTrusted then .error "email_unverified"
  else if !domainAllowed ident.email cfg.allowedDomains then .error "domain_not_allowed"
  else .ok ()

/-! ## The realm -/

/-- A user of the realm. -/
structure KeycloakUser where
  id : String
  username : String
  email : String
  emailVerified : Bool
  firstName : String
  lastName : String
  enabled : Bool
  /-- Set on a client's service account, which no person signs in as. -/
  serviceAccountClientID : String
  deriving DecidableEq

/-- The claims a listing gives a user. -/
def KeycloakUser.claims (u : KeycloakUser) : Claims where
  text claim :=
    if claim = "sub" then u.id
    else if claim = "preferred_username" then u.username
    else if claim = "email" then u.email
    else if claim = "name" then trimSpace (u.firstName ++ " " ++ u.lastName)
    else ""
  emailVerified := some u.emailVerified

/-- One round of the loop of `identities`: the person the user signs in as, if they
are enabled and their sign-in would admit them. -/
def KeycloakUser.identity (cfg : OIDCConfig) (u : KeycloakUser) : Option Person :=
  if !u.enabled || u.id = "" || u.serviceAccountClientID ≠ "" then none
  else
    match identityFromClaims u.id u.claims cfg with
    | .error _ => none
    | .ok (ident, trusted) =>
      match admitIdentity ident trusted cfg with
      | .error _ => none
      | .ok _ => some ident

/-- `identities`. -/
def identities (list : List KeycloakUser) (cfg : OIDCConfig) : List Person :=
  list.filterMap (KeycloakUser.identity cfg)

/-- The realm's users, in its order. -/
abbrev Realm := Table KeycloakUser.id

namespace Realm

/-- Someone joins, at a place in the order; nobody joins under an id that is there. -/
def join (r : Realm) (place : Nat) (u : KeycloakUser) : Option Realm :=
  if h : u.id ∈ r.rows.map KeycloakUser.id then none
  else some ⟨r.rows.take place ++ u :: r.rows.drop place, by
    refine (perm_middle.map KeycloakUser.id).nodup_iff.mpr ?_
    rw [take_append_drop, map_cons, nodup_cons]
    exact ⟨h, r.nodup⟩⟩

/-- Someone leaves. -/
def leave (r : Realm) (id : String) : Realm := r.delete fun u => u.id = id

/-- The answer to a page. -/
def page (r : Realm) (first size : Nat) : List KeycloakUser := (r.rows.drop first).take size

end Realm

/-! ## The listing -/

/-- `maxDirectoryUsers`. -/
def maxDirectoryUsers : Nat := 200000

/-- How many users one request asks for, by the setting `PageSize`. -/
def listSize (pageSize : Int) : Nat := if pageSize ≤ 0 then 200 else pageSize.toNat

/-- Why `Users` fails. -/
inductive ListingError where
  /-- An answer that did not come. -/
  | api
  | tooMany
  | incomplete (expect listed : Nat)
  | changed
  deriving DecidableEq

/-- Where `Users` is. -/
inductive ListingStage where
  /-- At the count before the pages. -/
  | counting (round : Nat)
  /-- At the page from `first` on. -/
  | paging (round before first : Nat) (out : List KeycloakUser)
  /-- At the count after the pages. -/
  | recounting (round before : Nat) (out : List KeycloakUser)
  | returned (people : List Person)
  | failed (e : ListingError)
  deriving DecidableEq

structure Listing where
  realm : Realm
  stage : ListingStage
  /-- The users who have been in the realm since the listing began. -/
  stayed : List KeycloakUser

/-- The listing begins. -/
def Listing.init (realm : Realm) : Listing where
  realm := realm
  stage := .counting 0
  stayed := realm.rows

inductive ListingLabel where
  | join (place : Nat) (u : KeycloakUser)
  | leave (id : String)
  /-- The next answer of the admin API. -/
  | answer
  | fails
  deriving DecidableEq

section Machine

variable (cfg : OIDCConfig) (pageSize : Int)

/-- `Users`, at the next answer. -/
def ListingStage.answer (realm : Realm) : ListingStage → Option ListingStage
  | .counting round => some (.paging round realm.rows.length 0 [])
  | .paging round before first out =>
    if maxDirectoryUsers < first then some (.failed .tooMany)
    else
      let page := realm.page first (listSize pageSize)
      let out := out ++ page
      if page.length < listSize pageSize then
        if out.length < before then some (.failed (.incomplete before out.length))
        else some (.recounting round before out)
      else some (.paging round before (first + listSize pageSize) out)
  | .recounting round before out =>
    if before = realm.rows.length then some (.returned (identities out cfg))
    else if round = 0 then some (.counting 1)
    else some (.failed .changed)
  | .returned _ => none
  | .failed _ => none

/-- One step: the realm changes, or the listing reads an answer. -/
def listingStep (s : Listing) : ListingLabel → Option Listing
  | .join place u => (s.realm.join place u).map fun realm => { s with realm := realm }
  | .leave id =>
    some { s with
      realm := s.realm.leave id
      stayed := s.stayed.filter fun u => !decide (u.id = id) }
  | .answer => (s.stage.answer cfg pageSize s.realm).map fun stage => { s with stage := stage }
  | .fails => some { s with stage := .failed .api }

/-! ## When nobody is missed -/

/-- A person who has been there throughout, may sign in and is on no page read yet. -/
def Unread (stayed out : List KeycloakUser) (u : KeycloakUser) : Prop :=
  u ∈ stayed ∧ (u.identity cfg).isSome = true ∧ u ∉ out

/-- Nobody on the pages read leaves while an unread person is first on the next page:
they would move back over its start. -/
def Unshifted (s : Listing) : ListingLabel → Prop
  | .leave id =>
    match s.stage with
    | .paging _ _ first out =>
      (∃ v ∈ s.realm.rows.take first, v.id = id) →
        ∀ u ∈ s.realm.rows[first]?, ¬Unread cfg s.stayed out u
    | _ => True
  | _ => True

end Machine

instance (cfg : OIDCConfig) (stayed out : List KeycloakUser) (u : KeycloakUser) :
    Decidable (Unread cfg stayed out u) :=
  inferInstanceAs (Decidable (_ ∧ _ ∧ _))

instance (cfg : OIDCConfig) (s : Listing) (l : ListingLabel) : Decidable (Unshifted cfg s l) := by
  unfold Unshifted
  repeat' split
  all_goals infer_instance

/-! ## Places in the order -/

variable {n : Nat} {u : KeycloakUser} {r : Realm}

omit [Casing] in
theorem Realm.mem_drop_join {r' : Realm} {place : Nat} {x : KeycloakUser}
    (h : r.join place x = some r') (hu : u ∈ r.rows.drop n) : u ∈ r'.rows.drop n := by
  unfold Realm.join at h
  split at h
  · cases h
  cases h
  have hsub : r.rows.Sublist (r.rows.take place ++ x :: r.rows.drop place) := by
    conv_lhs => rw [← take_append_drop place r.rows]
    exact (List.Sublist.refl _).append (sublist_cons_self x _)
  exact (hsub.drop n).subset hu

omit [Casing] in
/-- Whoever leaves from place `n` on moves nobody over it, and whoever leaves from
before it moves back over it only the user who is there. -/
theorem mem_drop_leave {l : List KeycloakUser} {id : String}
    (hl : (l.map KeycloakUser.id).Nodup) (hu : u ∈ l.drop n) (hid : u.id ≠ id)
    (hfirst : (∃ v ∈ l.take n, v.id = id) → l[n]? ≠ some u) :
    u ∈ (l.filter fun v => !decide (v.id = id)).drop n := by
  induction l generalizing n with
  | nil => simp at hu
  | cons a l ih =>
    cases n with
    | zero => exact mem_filter.mpr ⟨hu, by simpa using hid⟩
    | succ n =>
      obtain ⟨ha, hl⟩ := nodup_cons.mp hl
      by_cases hleft : a.id = id
      · -- nobody else has the id
        have hrest : (l.filter fun v => !decide (v.id = id)) = l :=
          filter_eq_self.mpr fun v hv => by
            simpa [← hleft] using fun h : v.id = a.id => ha (h ▸ mem_map_of_mem hv)
        rw [filter_cons_of_neg (by simpa using hleft), hrest]
        rw [drop_succ_cons, drop_eq_getElem?_toList_append, mem_append, Option.mem_toList] at hu
        exact hu.resolve_left (hfirst ⟨a, mem_cons_self, hleft⟩)
      · rw [filter_cons_of_pos (by simpa using hleft)]
        refine ih hl hu ?_
        rintro ⟨v, hv, hvid⟩
        exact hfirst ⟨v, mem_cons_of_mem a hv, hvid⟩

/-! ## Runs of the listing -/

section Runs

variable {cfg : OIDCConfig} {pageSize : Int} {realm : Realm} {s : Listing}

/-- Everyone who stayed and may sign in is on a page that was read, or still ahead. -/
def ListingStage.Covers (cfg : OIDCConfig) (realm : Realm) (stayed : List KeycloakUser) :
    ListingStage → Prop
  | .paging _ _ first out => ∀ u ∈ stayed, (u.identity cfg).isSome = true →
      u ∈ out ∨ u ∈ realm.rows.drop first
  | .recounting _ _ out => ∀ u ∈ stayed, (u.identity cfg).isSome = true → u ∈ out
  | .returned people => ∀ u ∈ stayed, ∀ p, u.identity cfg = some p → p ∈ people
  | _ => True

/-- What holds of a listing. -/
structure Listing.Inv (cfg : OIDCConfig) (s : Listing) : Prop where
  stayed : ∀ u ∈ s.stayed, u ∈ s.realm.rows
  covers : s.stage.Covers cfg s.realm s.stayed

omit [Casing] in
/-- A page holds everyone up to its end, and everyone if it is not full. -/
theorem Realm.mem_page {first size : Nat} (hu : u ∈ r.rows.drop first) :
    u ∈ r.page first size ∨
      (size ≤ (r.page first size).length ∧ u ∈ r.rows.drop (first + size)) := by
  rw [← take_append_drop size (r.rows.drop first), drop_drop] at hu
  rcases mem_append.mp hu with hu | hu
  · exact .inl hu
  · refine .inr ⟨?_, hu⟩
    have hpos := length_pos_of_mem hu
    rw [length_drop] at hpos
    show size ≤ ((r.rows.drop first).take size).length
    rw [length_take, length_drop]
    omega

theorem ListingStage.Covers.answer {stayed : List KeycloakUser}
    {stage stage' : ListingStage} (h : stage.Covers cfg realm stayed)
    (hstayed : ∀ u ∈ stayed, u ∈ realm.rows)
    (hstep : stage.answer cfg pageSize realm = some stage') : stage'.Covers cfg realm stayed := by
  cases stage with
  | counting round =>
    cases hstep
    exact fun u hu _ => .inr (hstayed u hu)
  | paging round before first out =>
    simp only [ListingStage.answer] at hstep
    split at hstep
    · cases hstep
      trivial
    split at hstep
    · rename_i hshort
      split at hstep
      · cases hstep
        trivial
      cases hstep
      -- the page was not full, so it was the last
      intro u hu hid
      rcases h u hu hid with hout | hahead
      · exact mem_append_left _ hout
      · rcases Realm.mem_page hahead with hpage | ⟨hfull, -⟩
        · exact mem_append_right _ hpage
        · exact absurd hfull (Nat.not_le.mpr hshort)
    · cases hstep
      intro u hu hid
      rcases h u hu hid with hout | hahead
      · exact .inl (mem_append_left _ hout)
      · rcases Realm.mem_page hahead with hpage | ⟨-, hnext⟩
        · exact .inl (mem_append_right _ hpage)
        · exact .inr hnext
  | recounting round before out =>
    simp only [ListingStage.answer] at hstep
    split at hstep
    · cases hstep
      intro u hu p hp
      exact mem_filterMap.mpr ⟨u, h u hu (Option.isSome_of_eq_some hp), hp⟩
    split at hstep
    · cases hstep
      trivial
    · cases hstep
      trivial
  | returned | failed => cases hstep

theorem Listing.Inv.join (h : s.Inv cfg) {place : Nat} {x : KeycloakUser}
    (hjoin : s.realm.join place x = some realm) : Listing.Inv cfg { s with realm := realm } := by
  refine ⟨fun u hu => ?_, ?_⟩
  · have hmem := Realm.mem_drop_join (n := 0) hjoin (u := u)
    exact hmem (h.stayed u hu)
  · obtain ⟨_, stage, stayed⟩ := s
    have hcovers := h.covers
    cases stage with
    | paging round before first out =>
      exact fun u hu hid => (hcovers u hu hid).imp_right (Realm.mem_drop_join hjoin)
    | counting | failed => trivial
    | recounting | returned => exact hcovers

theorem Listing.Inv.leave (h : s.Inv cfg) {id : String} (hcond : Unshifted cfg s (.leave id)) :
    Listing.Inv cfg { s with
      realm := s.realm.leave id
      stayed := s.stayed.filter fun u => !decide (u.id = id) } := by
  have hfilter : ∀ u ∈ s.stayed.filter fun u => !decide (u.id = id), u ∈ s.stayed ∧ u.id ≠ id := by
    intro u hu
    obtain ⟨hmem, hid⟩ := mem_filter.mp hu
    exact ⟨hmem, by simpa using hid⟩
  refine ⟨fun u hu => ?_, ?_⟩
  · obtain ⟨hmem, hid⟩ := hfilter u hu
    exact Table.mem_delete.mpr ⟨h.stayed u hmem, by simpa using hid⟩
  · obtain ⟨realm, stage, stayed⟩ := s
    have hcovers := h.covers
    cases stage with
    | paging round before first out =>
      intro u hu hident
      obtain ⟨hmem, hid⟩ := hfilter u hu
      rcases hcovers u hmem hident with hout | hahead
      · exact .inl hout
      · by_cases hout : u ∈ out
        · exact .inl hout
        · refine .inr (mem_drop_leave realm.nodup hahead hid ?_)
          intro hread hplace
          exact hcond hread u hplace ⟨hmem, hident, hout⟩
    | counting | failed => trivial
    | recounting | returned => exact fun u hu => hcovers u (hfilter u hu).1

/-- **One step** of a listing. -/
theorem listingStep_inv {t : Listing} {l : ListingLabel} (hcond : Unshifted cfg s l)
    (h : s.Inv cfg) (hstep : listingStep cfg pageSize s l = some t) : t.Inv cfg := by
  cases l with
  | join place u =>
    obtain ⟨realm, hjoin, rfl⟩ := Option.map_eq_some_iff.mp hstep
    exact h.join hjoin
  | leave id =>
    cases hstep
    exact h.leave hcond
  | answer =>
    obtain ⟨stage, hanswer, rfl⟩ := Option.map_eq_some_iff.mp hstep
    exact ⟨h.stayed, h.covers.answer h.stayed hanswer⟩
  | fails =>
    cases hstep
    exact ⟨h.stayed, trivial⟩

theorem Listing.inv_init (realm : Realm) : (Listing.init realm).Inv cfg :=
  ⟨fun _ hu => hu, trivial⟩

end Runs

/-! ## What a sync makes of a list -/

/-- A sync's next statement, with the accounts as they are then. -/
def syncNext (w : SyncRun) (l : Users × Int × String) : Option SyncRun := (w.next l.1 l.2.1 l.2.2).2

/-- The accounts of the people gone through are kept, and nobody else's account is
taken for theirs. -/
structure SyncRun.Inv (people : List Person) (w : SyncRun) : Prop where
  distinct : ∀ u ∈ w.linked, ∀ v ∈ w.linked, u.externalID ≠ "" → v.externalID = u.externalID →
    v.id = u.id
  seen : ∀ e ∈ w.seen, ∀ v ∈ w.linked, v.externalID = e → v.id ∈ w.kept
  named : ∀ e ∈ w.seen, e ≠ ""
  rest : ∀ p ∈ people, p.externalID ≠ "" → p ∈ w.people ∨ p.externalID ∈ w.seen
  gone : ∀ gone, (w.stage = .leaving gone ∨ ∃ u, w.stage = .disabling u gone) →
    w.people = [] ∧ ∀ v ∈ gone, v.externalID ∉ w.seen

omit [Casing] in
theorem mem_goneFrom {linked : List User} {kept : List String} {listed : Nat} {force : Bool}
    {v : User} (h : v ∈ goneFrom linked kept listed force) : v ∈ linked ∧ v.id ∉ kept := by
  unfold goneFrom at h
  dsimp only at h
  split at h
  · cases h
  split at h
  · cases h
  · obtain ⟨hactive, hkept⟩ := mem_filter.mp h
    exact ⟨(mem_filter.mp hactive).1, by simpa using hkept⟩

namespace SyncRun

variable {people : List Person} {w : SyncRun} {stage : SyncStage} {gone : List User} {w' : SyncRun}
  {e : String} {tbl : Users} {now : Int} {newID : String} {provider : OpenedProvider}

omit [Casing] in
/-- The stage moves on among the people, or accounts are added to the kept ones. -/
theorem Inv.goes (h : w.Inv people) {kept : List String} (hkept : ∀ id ∈ w.kept, id ∈ kept)
    (hstage : ∀ gone, stage ≠ .leaving gone ∧ ∀ u, stage ≠ .disabling u gone) :
    Inv people { w with kept := kept, stage := stage } where
  distinct := h.distinct
  seen e he v hv heq := hkept _ (h.seen e he v hv heq)
  named := h.named
  rest := h.rest
  gone gone hgone := by
    rcases hgone with hgone | ⟨u, hgone⟩
    · exact absurd hgone (hstage gone).1
    · exact absurd hgone ((hstage gone).2 u)

omit [Casing] in
theorem Inv.leaves (h : w.Inv people) {gone' : List User}
    (hw : w.stage = .leaving gone ∨ ∃ u, w.stage = .disabling u gone) (hsub : ∀ v ∈ gone', v ∈ gone)
    (hstage : stage = .leaving gone' ∨ ∃ u, stage = .disabling u gone') :
    Inv people { w with stage := stage } where
  distinct := h.distinct
  seen := h.seen
  named := h.named
  rest := h.rest
  gone g hg := by
    obtain ⟨hpeople, hseen⟩ := h.gone gone hw
    have heq : g = gone' := by
      rcases hstage with rfl | ⟨u, rfl⟩
      · rcases hg with hg | ⟨v, hg⟩
        · exact (SyncStage.leaving.inj hg).symm
        · exact SyncStage.noConfusion hg
      · rcases hg with hg | ⟨v, hg⟩
        · exact SyncStage.noConfusion hg
        · exact (SyncStage.disabling.inj hg).2.symm
    subst heq
    exact ⟨hpeople, fun v hv => hseen v (hsub v hv)⟩

omit [Casing] in
/-- A person is gone through, with the copies of the accounts the same but for their
status. -/
theorem Inv.person (h : w.Inv people) {person : Person} {rest : List Person}
    (hpeople : w.people = person :: rest) (hname : person.externalID ≠ "")
    (hrest : w'.people = rest) (hseen : w'.seen = person.externalID :: w.seen)
    (hlinked : ∀ v' ∈ w'.linked, ∃ v ∈ w.linked, v.id = v'.id ∧ v.externalID = v'.externalID)
    (hkept : ∀ id ∈ w.kept, id ∈ w'.kept)
    (htheirs : ∀ v ∈ w.linked, v.externalID = person.externalID → v.id ∈ w'.kept)
    (hstage : ∀ gone, w'.stage ≠ .leaving gone ∧ ∀ u, w'.stage ≠ .disabling u gone) :
    w'.Inv people where
  distinct u' hu' v' hv' hne heq := by
    obtain ⟨u, hu, huid, huext⟩ := hlinked u' hu'
    obtain ⟨v, hv, hvid, hvext⟩ := hlinked v' hv'
    rw [← huid, ← hvid]
    exact h.distinct u hu v hv (huext ▸ hne) (by rw [hvext, huext, heq])
  seen e he v' hv' heq := by
    obtain ⟨v, hv, hvid, hvext⟩ := hlinked v' hv'
    rw [← hvid]
    rcases mem_cons.mp (hseen ▸ he) with rfl | he
    · exact htheirs v hv (hvext.trans heq)
    · exact hkept _ (h.seen e he v hv (hvext.trans heq))
  named e he := by
    rcases mem_cons.mp (hseen ▸ he) with rfl | he
    · exact hname
    · exact h.named e he
  rest p hp hne := by
    rw [hrest, hseen]
    rcases h.rest p hp hne with hp | hp
    · rcases mem_cons.mp (hpeople ▸ hp) with rfl | hp
      · exact .inr mem_cons_self
      · exact .inl hp
    · exact .inr (mem_cons_of_mem _ hp)
  gone gone hgone := by
    rcases hgone with hgone | ⟨u, hgone⟩
    · exact absurd hgone (hstage gone).1
    · exact absurd hgone ((hstage gone).2 u)

omit [Casing] in
theorem byExternal_some {u : User} (h : w.byExternal e = some u) :
    u ∈ w.linked ∧ u.externalID = e :=
  ⟨mem_reverse.mp (mem_of_find?_eq_some h), by simpa using find?_some h⟩

omit [Casing] in
theorem byExternal_none (h : w.byExternal e = none) : ∀ v ∈ w.linked, v.externalID ≠ e := by
  intro v hv
  simpa using find?_eq_none.mp h v (mem_reverse.mpr hv)

omit [Casing] in
/-- `keep` marks the account, and changes no copy but in its status. -/
theorem keep_spec (u : User) (person : Person) :
    (w.keep tbl now u person).2.people = w.people ∧ (w.keep tbl now u person).2.seen = w.seen ∧
      (w.keep tbl now u person).2.kept = u.id :: w.kept ∧
      (∃ v, (w.keep tbl now u person).2.stage = .keeping v person) ∧
      ∀ v' ∈ (w.keep tbl now u person).2.linked,
        ∃ v ∈ w.linked, v.id = v'.id ∧ v.externalID = v'.externalID := by
  unfold SyncRun.keep
  dsimp only
  split
  · refine ⟨rfl, rfl, rfl, ⟨_, rfl⟩, ?_⟩
    intro v' hv'
    obtain ⟨v, hv, rfl⟩ := mem_map.mp hv'
    refine ⟨v, hv, ?_⟩
    split <;> exact ⟨rfl, rfl⟩
  · exact ⟨rfl, rfl, rfl, ⟨_, rfl⟩, fun v' hv' => ⟨v', hv', rfl, rfl⟩⟩

/-- `join` changes the stage only, and comes to no removal. -/
theorem join_spec (w : SyncRun) (person : Person) (hw : w.stage = .people) :
    ∃ stage, w.join tbl now person = { w with stage := stage } ∧
      ∀ gone, stage ≠ .leaving gone ∧ ∀ u, stage ≠ .disabling u gone := by
  have hpeople : w = { w with stage := .people } := by rw [← hw]
  unfold SyncRun.join
  split
  · exact ⟨.people, hpeople, fun gone => ⟨nofun, nofun⟩⟩
  split
  · exact ⟨.creating person, rfl, fun gone => ⟨nofun, nofun⟩⟩
  · split
    · exact ⟨.people, hpeople, fun gone => ⟨nofun, nofun⟩⟩
    · exact ⟨.adopting _ person, rfl, fun gone => ⟨nofun, nofun⟩⟩

theorem Inv.atPeople (h : w.Inv people) (hw : w.stage = .people)
    (hnext : (w.next tbl now newID).2 = some w') : w'.Inv people := by
  obtain ⟨provider, force, listed, left, linked, seen, kept, stage⟩ := w
  obtain rfl : stage = .people := hw
  simp only [SyncRun.next] at hnext
  cases left with
  | nil =>
    cases hnext
    refine ⟨h.distinct, h.seen, h.named, h.rest, ?_⟩
    rintro gone (hgone | ⟨u, hgone⟩)
    · cases hgone
      refine ⟨rfl, fun v hv hseen => ?_⟩
      -- whoever is gone is linked and was not kept, so was not seen
      obtain ⟨hlinked, hkept⟩ := mem_goneFrom hv
      exact hkept (h.seen _ hseen v hlinked rfl)
    · exact SyncStage.noConfusion hgone
  | cons person rest =>
    dsimp only at hnext
    split at hnext
    · rename_i hskip
      cases hnext
      refine ⟨h.distinct, h.seen, h.named, ?_, ?_⟩
      · intro p hp hne
        rcases h.rest p hp hne with hp | hp
        · rcases mem_cons.mp hp with rfl | hp
          · rw [Bool.or_eq_true, decide_eq_true_eq, contains_iff_mem] at hskip
            exact .inr (hskip.resolve_left hne)
          · exact .inl hp
        · exact .inr hp
      · rintro gone (hgone | ⟨u, hgone⟩)
        · exact SyncStage.noConfusion hgone
        · exact SyncStage.noConfusion hgone
    · rename_i hskip
      rw [Bool.or_eq_true, decide_eq_true_eq, not_or] at hskip
      obtain ⟨hname, -⟩ := hskip
      split at hnext
      · rename_i u hu
        obtain ⟨hmem, hext⟩ := byExternal_some hu
        cases hnext
        obtain ⟨hp, hs, hk, ⟨v, hstage⟩, hl⟩ := keep_spec u person
        refine h.person rfl hname hp hs hl ?_ ?_ ?_
        · rw [hk]
          exact fun id hid => mem_cons_of_mem _ hid
        · intro v hv hv'
          -- no other account has the subject
          rw [hk, h.distinct u hmem v hv (hext ▸ hname) (hv'.trans hext.symm)]
          exact mem_cons_self
        · rw [hstage]
          exact fun gone => ⟨nofun, nofun⟩
      · rename_i hnone
        cases hnext
        obtain ⟨stage, hjoin, hstage⟩ := join_spec
          ⟨provider, force, listed, rest, linked, person.externalID :: seen, kept, .people⟩ person rfl
        rw [hjoin]
        refine h.person rfl hname rfl rfl (fun v hv => ⟨v, hv, rfl, rfl⟩) (fun _ hid => hid) ?_
          hstage
        exact fun v hv hv' => absurd hv' (byExternal_none hnone v hv)

/-- **One step** of a sync. -/
theorem next_inv (h : w.Inv people)
    (hnext : (w.next tbl now newID).2 = some w') : w'.Inv people := by
  have hpeople : ∀ {kept : List String}, (∀ id ∈ w.kept, id ∈ kept) →
      Inv people { w with kept := kept, stage := .people } :=
    fun hkept => h.goes hkept fun gone => ⟨nofun, nofun⟩
  cases hw : w.stage with
  | people => exact h.atPeople hw hnext
  | leaving gone =>
    cases gone with
    | nil =>
      simp only [SyncRun.next, hw] at hnext
      cases hnext
    | cons u gone =>
      simp only [SyncRun.next, hw] at hnext
      split at hnext <;> cases hnext
      · exact h.leaves (.inl hw) (fun _ hv => mem_cons_of_mem _ hv) (.inr ⟨u, rfl⟩)
      · exact h.leaves (.inl hw) (fun _ hv => mem_cons_of_mem _ hv) (.inl rfl)
  | _ => ?_
  all_goals simp only [SyncRun.next, hw] at hnext
  case keeping u person =>
    split at hnext
    · split at hnext <;> cases hnext <;> exact hpeople fun _ hid => hid
    · cases hnext
      exact hpeople fun _ hid => hid
  case adopting u person =>
    split at hnext
    · cases hnext
      exact hpeople fun _ hid => mem_cons_of_mem _ hid
    · cases hnext
      exact h.goes (fun _ hid => hid) fun gone => ⟨nofun, nofun⟩
    · cases hnext
      exact hpeople fun _ hid => hid
  case creating person =>
    split at hnext
    · cases hnext
      exact hpeople fun _ hid => hid
    · split at hnext <;> cases hnext <;> exact hpeople fun _ hid => hid
  case disabling u gone =>
    cases hnext
    exact h.leaves (.inr ⟨u, hw⟩) (fun _ hv => hv) (.inl rfl)

omit [Casing] in
theorem start_inv (hone : OneEach tbl) (hid : provider.id ≠ "") (force : Bool) :
    (SyncRun.start tbl provider force people).Inv people where
  distinct u hu v hv hne heq := by
    simp only [SyncRun.start, UserRepo.listByIdP, mem_insertionSort, mem_filter,
      decide_eq_true_eq] at hu hv
    rw [hone u hu.1 v hv.1 ⟨hu.2 ▸ hid, hne⟩ ⟨hv.2.trans hu.2.symm, heq⟩]
  seen _ he := nomatch he
  named _ he := nomatch he
  rest p hp _ := .inl ((mem_insertionSort _).mpr hp)
  gone _ hgone := by
    rcases hgone with hgone | ⟨u, hgone⟩ <;> exact SyncStage.noConfusion hgone

/-- A sync takes nobody on its list for one who left. -/
theorem listed_not_gone {force : Bool} {ls : List (Users × Int × String)} (hone : OneEach tbl)
    (hid : provider.id ≠ "") (h : Run syncNext (.start tbl provider force people) ls w)
    (hw : w.stage = .leaving gone) {p : Person} (hp : p ∈ people) (hne : p.externalID ≠ "") :
    ∀ v ∈ gone, v.externalID ≠ p.externalID := by
  have hinv : w.Inv people := h.keeps (Inv people)
    (fun _ _ _ _ hinv hstep => next_inv hinv hstep) (start_inv hone hid force)
  obtain ⟨hover, hseen⟩ := hinv.gone gone (.inl hw)
  intro v hv heq
  rcases hinv.rest p hp hne with hrest | hrest
  · rw [hover] at hrest
    cases hrest
  · exact hseen v hv (heq ▸ hrest)

end SyncRun

/-! ## Who is listed -/

theorem KeycloakUser.identity_externalID {cfg : OIDCConfig} {p : Person}
    (h : u.identity cfg = some p) : p.externalID = u.id ∧ u.id ≠ "" := by
  unfold KeycloakUser.identity at h
  split at h
  · cases h
  rename_i hskip
  have hid : u.id ≠ "" := by
    intro hid
    simp [hid] at hskip
  split at h
  · cases h
  rename_i hident
  split at h <;> cases h
  refine ⟨?_, hid⟩
  simp only [identityFromClaims, bind, Except.bind] at hident
  split at hident
  · cases hident
  split at hident
  · cases hident
  · exact (congrArg (fun r : Person × Bool => r.1.externalID) (Except.ok.inj hident)).symm

/-- **Everyone who stayed is listed**, in every listing that returns and whose removals
move no unread person who stayed back over the start of the next page; and a sync of
the list, whatever happens to the accounts meanwhile, takes none of them for one who
left. -/
theorem stayed_are_listed {cfg : OIDCConfig} {pageSize : Int} {realm : Realm}
    {ls : List ListingLabel} {s : Listing} {people : List Person}
    (h : RunWhere (listingStep cfg pageSize) (Unshifted cfg) (.init realm) ls s)
    (hreturned : s.stage = .returned people) :
    ∀ u ∈ s.stayed, ∀ p, u.identity cfg = some p →
      p ∈ people ∧ ∀ tbl provider force ls' w gone, OneEach tbl → provider.id ≠ "" →
        Run syncNext (.start tbl provider force people) ls' w → w.stage = .leaving gone →
          ∀ v ∈ gone, v.externalID ≠ u.id := by
  have hinv : s.Inv cfg := h.keeps (Listing.Inv cfg) (fun _ _ _ => listingStep_inv)
    (Listing.inv_init realm)
  have hcovers := hinv.covers
  rw [hreturned] at hcovers
  intro u hu p hp
  have hlisted : p ∈ people := hcovers u hu p hp
  refine ⟨hlisted, ?_⟩
  intro tbl provider force ls' w gone hone hid hrun hgone
  obtain ⟨hext, hne⟩ := KeycloakUser.identity_externalID hp
  rw [← hext] at hne ⊢
  exact SyncRun.listed_not_gone hone hid hrun hgone hlisted hne

end

/-- An enabled user of the realm. -/
def realmUser (name : String) : KeycloakUser :=
  ⟨name, name, "", false, "", "", true, ""⟩

/-- A realm of four. -/
def fourUsers : Realm :=
  ⟨[realmUser "anna", realmUser "ben", realmUser "carl", realmUser "dora"], by decide⟩

/-- The default username claim, and no gate. -/
def plainConfig : OIDCConfig := ⟨"preferred_username", [], false⟩

/-- The list a listing returns when these were on its pages. -/
def listed (names : List String) : List Person := identities (names.map realmUser) plainConfig

/-- Someone on the next page leaves, and someone joins at the end. -/
def nextPageLeaves : List ListingLabel :=
  [.answer, .answer, .leave "dora", .join 3 (realmUser "eve"), .answer, .answer, .answer]

theorem stayed_are_listed_anyway :
    ∃ s, RunWhere (listingStep plainConfig 2) (Unshifted plainConfig) (.init fourUsers)
        nextPageLeaves s ∧
      s.stage = .returned (listed ["anna", "ben", "carl", "eve"]) ∧
      realmUser "carl" ∈ s.stayed ∧
      ∀ u ∈ s.stayed, ∀ p, u.identity plainConfig = some p →
        p ∈ listed ["anna", "ben", "carl", "eve"] ∧
          ∀ tbl provider force ls' w gone, OneEach tbl → provider.id ≠ "" →
            Run syncNext (.start tbl provider force (listed ["anna", "ben", "carl", "eve"]))
              ls' w → w.stage = .leaving gone → ∀ v ∈ gone, v.externalID ≠ u.id :=
  RunWhere.exists_of_decide (P := fun s =>
      s.stage = .returned (listed ["anna", "ben", "carl", "eve"]) ∧ realmUser "carl" ∈ s.stayed)
    (by decide +kernel) fun _ hrun hs => ⟨hs.1, hs.2, stayed_are_listed hrun hs.1⟩

/-- Someone on the page already read leaves, and someone joins at the end. -/
def readPageLeaves : List ListingLabel :=
  [.answer, .answer, .leave "anna", .join 3 (realmUser "eve"), .answer, .answer, .answer]

/-- The account of Carl, linked to their subject. -/
def carlsAccount : Users :=
  ⟨[{ ann with id := "u-3", username := "carl", idpID := "kc", externalID := "carl" }], by decide⟩

/-- The accounts a sync is about to disable. -/
def SyncRun.leavers (w : SyncRun) : List String :=
  match w.stage with
  | .leaving gone => gone.map User.id
  | _ => []

/-- The counts before and after are both four; Carl, who was third and is now second,
is on neither page, and the sync of the list takes them for one who left. -/
theorem leaver_hides_stayer :
    ∃ s, Run (listingStep plainConfig 2) (.init fourUsers) readPageLeaves s ∧
      s.stage = .returned (listed ["anna", "ben", "dora", "eve"]) ∧
      realmUser "carl" ∈ s.stayed ∧
      (realmUser "carl").identity plainConfig = some ⟨"carl", "carl", "", ""⟩ ∧
      ⟨"carl", "carl", "", ""⟩ ∉ listed ["anna", "ben", "dora", "eve"] ∧
      ∃ w, Run syncNext
          (.start carlsAccount ⟨"kc", false, []⟩ false (listed ["anna", "ben", "dora", "eve"]))
          (replicate 9 (carlsAccount, 0, "")) w ∧ w.leavers = ["u-3"] :=
  Run.exists_of_decide (P := fun s =>
      s.stage = .returned (listed ["anna", "ben", "dora", "eve"]) ∧ realmUser "carl" ∈ s.stayed)
    (by decide +kernel) fun _ _ hs => ⟨hs.1, hs.2, by decide +kernel, by decide +kernel,
      Run.of_exec_decide (by decide +kernel)⟩

end Zanskar
