import Zanskar.Idp.Directory
import Zanskar.Idp.Scim

/-!
# The account of a subject

`Resolve` (`internal/idp/idp.go`) finds the account of the person who signs in by
the provider and their subject, else adopts the one with their username, else
creates one. A sync of the same provider does so for everyone it lists, and a SCIM
client links accounts by username with no subject yet. All of them decide on copies
read before, and administrators set passwords meanwhile; what holds is what the WHERE
clauses of `LinkExternal` and `Provision` and the unique index on provider and subject
say together (`LinkChange`).

- `links_stand` : a linked account keeps its link, and a subject has one account.

The empty subject stands for none here, as in `scanUser`; no sign-in comes with it.
-/

namespace Zanskar

open Go Lib List

/-! ## What a link is -/

/-- Linked to a provider and a subject. -/
def User.Linked (u : User) : Prop := u.idpID ≠ "" ∧ u.externalID ≠ ""

/-- Linked to this provider and this subject. -/
def User.LinkedTo (u : User) (idpID externalID : String) : Prop :=
  u.idpID = idpID ∧ u.externalID = externalID

/-- Each provider and subject is linked to at most one account. -/
def OneEach (tbl : Users) : Prop :=
  ∀ u ∈ tbl.rows, ∀ v ∈ tbl.rows, u.Linked → v.LinkedTo u.idpID u.externalID → v = u

/-- Every linked account keeps its link. -/
def KeepsLinks (tbl tbl' : Users) : Prop :=
  ∀ u ∈ tbl.rows, u.Linked → ∃ v ∈ tbl'.rows, v.id = u.id ∧ v.LinkedTo u.idpID u.externalID

/-- An account whose provider or subject is not what it was, or that is new and has a
provider, has no password, and had none. -/
structure LinksPasswordless (tbl tbl' : Users) : Prop where
  changed : ∀ u ∈ tbl.rows, ∀ v ∈ tbl'.rows, v.id = u.id → ¬v.LinkedTo u.idpID u.externalID →
    u.passwordHash = "" ∧ v.passwordHash = ""
  fresh : ∀ v ∈ tbl'.rows, (∀ u ∈ tbl.rows, u.id ≠ v.id) → v.idpID ≠ "" → v.passwordHash = ""

/-! ## What a statement does to the links -/

/-- The row keeps its link, or it was free: without a password, and not linked. -/
def Relinks (u v : User) : Prop :=
  v.LinkedTo u.idpID u.externalID ∨ (u.passwordHash = "" ∧ v.passwordHash = "" ∧ ¬u.Linked)

/-- What every statement does. -/
structure LinkChange (tbl tbl' : Users) : Prop where
  row : ∀ u ∈ tbl.rows, ∃ v ∈ tbl'.rows, v.id = u.id ∧ Relinks u v
  fresh : ∀ v ∈ tbl'.rows, (∀ u ∈ tbl.rows, u.id ≠ v.id) → v.idpID ≠ "" → v.passwordHash = ""
  oneEach : OneEach tbl → OneEach tbl'

variable {tbl : Users} {now : Int} {newID id : String}

namespace LinkChange

variable {tbl tbl' : Users} {cond : User → Bool} {set : User → User} {now : Int} {id idpID : String}

theorem refl (tbl : Users) : LinkChange tbl tbl where
  row u hu := ⟨u, hu, rfl, .inl ⟨rfl, rfl⟩⟩
  fresh v hv hnew := absurd rfl (hnew v hv)
  oneEach := id

/-- An UPDATE of one account: it keeps the link or the account was free, and the link
it leaves is nobody else's. -/
theorem update (id : String) {hkey : ∀ u, (set u).id = u.id} (hid : ∀ u, cond u → u.id = id)
    (hrow : ∀ u ∈ tbl.rows, cond u → Relinks u (set u))
    (hother : OneEach tbl → ∀ u ∈ tbl.rows, cond u → (set u).Linked → ∀ v ∈ tbl.rows,
      v.LinkedTo (set u).idpID (set u).externalID → v.id = id) :
    LinkChange tbl (tbl.update cond set hkey) where
  row u hu := by
    cases hc : cond u with
    | true =>
      exact ⟨set u, Table.mem_update.mpr ⟨u, hu, .inl ⟨hc, rfl⟩⟩, hkey u, hrow u hu hc⟩
    | false =>
      exact ⟨u, Table.mem_update.mpr ⟨u, hu, .inr ⟨hc, rfl⟩⟩, rfl, .inl ⟨rfl, rfl⟩⟩
  fresh v hv hnew := by
    obtain ⟨u, hu, ⟨-, rfl⟩ | ⟨-, rfl⟩⟩ := Table.mem_update.mp hv
    · exact absurd (hkey u).symm (hnew u hu)
    · exact absurd rfl (hnew v hu)
  oneEach hone := by
    intro u' hu' v' hv' hlinked hto
    obtain ⟨u, hu, rfl⟩ := mem_map.mp hu'
    obtain ⟨v, hv, rfl⟩ := mem_map.mp hv'
    suffices hsame : u = v by rw [hsame]
    -- one of the two at most is the account that is updated
    by_cases hcu : cond u
    · rw [if_pos hcu] at hlinked hto
      by_cases hcv : cond v
      · exact tbl.eq_of_key_eq hu hv ((hid u hcu).trans (hid v hcv).symm)
      · rw [if_neg hcv] at hto
        have hvid := hother hone u hu hcu hlinked v hv hto
        exact tbl.eq_of_key_eq hu hv ((hid u hcu).trans hvid.symm)
    · rw [if_neg hcu] at hlinked hto
      by_cases hcv : cond v
      · rw [if_pos hcv] at hto
        have hset : (set v).Linked := by
          rw [User.Linked, hto.1, hto.2]
          exact hlinked
        have huid := hother hone v hv hcv hset u hu ⟨hto.1.symm, hto.2.symm⟩
        exact tbl.eq_of_key_eq hu hv (huid.trans (hid v hcv).symm)
      · rw [if_neg hcv] at hto
        exact (hone u hu v hv hlinked hto).symm

/-- An UPDATE of one account that leaves provider and subject alone. -/
theorem update_same (id : String)
    {hkey : ∀ u, (set u).id = u.id} (hid : ∀ u, cond u → u.id = id)
    (hset : ∀ u, (set u).LinkedTo u.idpID u.externalID) :
    LinkChange tbl (tbl.update cond set hkey) := by
  refine update id hid (fun u _ _ => .inl (hset u)) ?_
  intro hone u hu hc hlinked v hv hto
  rw [User.Linked, (hset u).1, (hset u).2] at hlinked
  rw [(hset u).1, (hset u).2] at hto
  rw [hone u hu v hv hlinked hto, hid u hc]

/-- `LinkExternal`. -/
theorem link {externalID : String}
    (h : UserRepo.linkExternal tbl now id idpID externalID = .ok tbl') : LinkChange tbl tbl' := by
  obtain ⟨-, hother, rfl⟩ := UserRepo.linkExternal_ok h
  refine update id ?_ ?_ ?_
  · intro u hc
    simp only [UserRepo.linkable, Bool.and_eq_true, decide_eq_true_eq] at hc
    exact hc.1.1
  · intro u hu hc
    simp only [UserRepo.linkable, Bool.and_eq_true, Bool.or_eq_true, decide_eq_true_eq] at hc
    refine .inr ⟨hc.1.2, hc.1.2, ?_⟩
    rintro ⟨hidp, hext⟩
    rcases hc.2 with hno | ⟨-, hno⟩
    · exact hidp hno
    · exact hext hno
  · intro _ u _ _ _ v hv hto
    exact hother v hv hto.1 hto.2

/-- `Provision`. -/
theorem provision (h : UserRepo.provision tbl now id idpID = .ok tbl') : LinkChange tbl tbl' := by
  obtain ⟨hother, rfl⟩ := UserRepo.provision_ok h
  refine update id ?_ ?_ ?_
  · intro u hc
    simp only [UserRepo.provisionable, Bool.and_eq_true, decide_eq_true_eq] at hc
    exact hc.1.1
  · intro u hu hc
    simp only [UserRepo.provisionable, Bool.and_eq_true, decide_eq_true_eq] at hc
    exact .inr ⟨hc.2, hc.2, fun hlinked => hlinked.1 hc.1.2⟩
  · intro _ u hu hc hlinked v hv hto
    exact hother u hu hc hlinked.2 v hv hto.1 hto.2

variable [Casing] in
/-- `Create` of an account without a password. -/
theorem create {u : User} (hpassword : u.passwordHash = "")
    (h : UserRepo.create tbl now newID u = .ok tbl') : LinkChange tbl tbl' := by
  obtain ⟨hclash, hmem⟩ := UserRepo.create_ok h
  -- the index on provider and subject
  have hother : ∀ v ∈ tbl.rows, (UserRepo.created now newID u).Linked →
      ¬v.LinkedTo u.idpID u.externalID := by
    intro v hv hlinked hto
    have hidp : u.idpID ≠ "" := hlinked.1
    have hext : u.externalID ≠ "" := hlinked.2
    have hno := hclash v hv
    simp [UserRepo.clashes, UserRepo.created, hto.1, hto.2, hidp, hext] at hno
  refine ⟨fun v hv => ⟨v, (hmem v).mpr (.inl hv), rfl, .inl ⟨rfl, rfl⟩⟩, ?_, ?_⟩
  · intro v hv hnew _
    rcases (hmem v).mp hv with hv | rfl
    · exact absurd rfl (hnew v hv)
    · exact hpassword
  · intro hone v hv w hw hlinked hto
    rcases (hmem v).mp hv with hv | rfl
    · rcases (hmem w).mp hw with hw | rfl
      · exact hone v hv w hw hlinked hto
      · refine absurd ⟨hto.1.symm, hto.2.symm⟩ (hother v hv ?_)
        rw [User.Linked, hto.1, hto.2]
        exact hlinked
    · rcases (hmem w).mp hw with hw | rfl
      · exact absurd hto (hother w hw hlinked)
      · rfl

/-- `SetPasswordHash`. -/
theorem setPassword {hash : String}
    (h : UserRepo.setPasswordHash tbl now id hash = .ok tbl') : LinkChange tbl tbl' := by
  unfold UserRepo.setPasswordHash at h
  split at h <;> cases h
  exact update_same id (fun _ => of_decide_eq_true) fun _ => ⟨rfl, rfl⟩

variable [Casing] in
/-- `Update`. -/
theorem profile {displayName email : String} {status : StatusText}
    (h : UserRepo.update tbl now id displayName email status = .ok tbl') : LinkChange tbl tbl' := by
  obtain ⟨st, -, -, rfl⟩ := UserRepo.update_ok h
  refine update_same id (fun _ => of_decide_eq_true) fun u => ?_
  unfold UserRepo.updated
  exact ⟨rfl, rfl⟩

theorem enable (tbl : Users) (now : Int) (id : String) :
    LinkChange tbl (UserRepo.enableReturned tbl now id) := by
  refine update_same id ?_ fun _ => ⟨rfl, rfl⟩
  intro u hc
  simp only [UserRepo.returns, Bool.and_eq_true, decide_eq_true_eq] at hc
  exact hc.1.1

theorem disable (tbl : Users) (now : Int) (id : String) :
    LinkChange tbl (UserRepo.disableRemoved tbl id now) := by
  refine update_same id ?_ fun _ => ⟨rfl, rfl⟩
  intro u hc
  rw [Bool.and_eq_true, decide_eq_true_eq] at hc
  exact hc.1

variable [Casing] in
theorem of_writeEffect {F : User → Prop} (h : WriteEffect F tbl tbl') : LinkChange tbl tbl' := by
  cases h with
  | nothing => exact refl tbl
  | enable now id => exact enable tbl now id
  | disable now id => exact disable tbl now id
  | link h => exact link h
  | create h => exact create rfl h
  | profile _ h => exact profile h

variable [Casing] in
theorem of_pushEffect (h : PushEffect tbl tbl') : LinkChange tbl tbl' := by
  cases h with
  | nothing => exact refl tbl
  | stamp now id => exact update_same id (fun _ => of_decide_eq_true) fun _ => ⟨rfl, rfl⟩
  | provision h => exact provision h
  | create h => exact create rfl h
  | rename h =>
    rename_i id username
    unfold UserRepo.rename at h
    dsimp only at h
    split at h
    · cases h
    split at h
    · cases h
    split at h
    · cases h
    cases h
    exact update_same id (fun _ => of_decide_eq_true) fun _ => ⟨rfl, rfl⟩
  | profile h => exact profile h
  | enable now id => exact enable tbl now id
  | disable now id => exact disable tbl now id

/-- An account linked to a provider and a subject stays so. -/
theorem keepsLinks (h : LinkChange tbl tbl') : KeepsLinks tbl tbl' := by
  intro u hu hlinked
  obtain ⟨v, hv, hid, hsame | ⟨-, -, hfree⟩⟩ := h.row u hu
  · exact ⟨v, hv, hid, hsame⟩
  · exact absurd hlinked hfree

theorem linksPasswordless (h : LinkChange tbl tbl') : LinksPasswordless tbl tbl' where
  changed u hu v hv hid hchanged := by
    obtain ⟨w, hw, hwid, hrow⟩ := h.row u hu
    obtain rfl := tbl'.eq_of_key_eq hw hv (hwid.trans hid.symm)
    obtain ⟨hu', hw', -⟩ := hrow.resolve_left hchanged
    exact ⟨hu', hw'⟩
  fresh := h.fresh

end LinkChange

theorem KeepsLinks.refl (tbl : Users) : KeepsLinks tbl tbl :=
  fun u hu _ => ⟨u, hu, rfl, rfl, rfl⟩

variable {tbl tbl' : Users}

theorem KeepsLinks.trans {tbl'' : Users} (h : KeepsLinks tbl tbl') (h' : KeepsLinks tbl' tbl'') :
    KeepsLinks tbl tbl'' := by
  intro u hu hlinked
  obtain ⟨v, hv, hid, hto⟩ := h u hu hlinked
  have hv' : v.Linked := by
    rw [User.Linked, hto.1, hto.2]
    exact hlinked
  obtain ⟨w, hw, hwid, hwto⟩ := h' v hv hv'
  rw [hto.1, hto.2] at hwto
  exact ⟨w, hw, hwid.trans hid, hwto⟩

/-! ## Sign-ins to their end -/

/-- Where `Resolve` is: at its account, or with it in hand. The memberships of the
person are brought in line in between, which changes no account. -/
inductive ResolveStage where
  | signIn (stage : SignInStage)
  | answering (u : User)

/-- One call of `Resolve`. -/
structure ResolveRun where
  provider : OpenedProvider
  person : Person
  stage : ResolveStage

variable [Casing] in
/-- The next statement of `Resolve`, and the account it returns if it was the last. -/
def ResolveRun.next (w : ResolveRun) (tbl : Users) (now : Int) (newID : String) :
    Users × Option ResolveRun × Option User :=
  match w.stage with
  | .signIn .creating =>
    if !w.provider.autoProvision then (tbl, none, none)
    else
      match UserRepo.create tbl now newID (w.person.account w.provider) with
      | .ok tbl =>
        (tbl, some { w with
          stage := .answering (UserRepo.created now newID (w.person.account w.provider)) }, none)
      | .error _ => (tbl, none, none)
  | .signIn (.resolved u) =>
    -- an error of the profile write is dropped
    ((SignInRun.next ⟨w.provider, w.person, .resolved u⟩ tbl now newID).1,
      some { w with stage := .answering u }, none)
  | .signIn stage =>
    let (tbl, rest) := SignInRun.next ⟨w.provider, w.person, stage⟩ tbl now newID
    (tbl, rest.map fun r => { w with stage := .signIn r.stage }, none)
  | .answering u => if u.isLocked now then (tbl, none, none) else (tbl, none, tbl.get u.id)

/-! ## The machine -/

/-- What a call of `Resolve` returned, and for whom it was made. -/
structure Resolved where
  idpID : String
  externalID : String
  account : User

structure LinkState where
  accounts : Accounts
  /-- The calls; `none` is one that is over. -/
  syncs : List (Option SyncRun)
  signIns : List (Option ResolveRun)
  pushes : List (Option PushRun)
  /-- What the sign-ins have returned so far. -/
  resolved : List Resolved

def LinkState.init (accounts : Accounts) : LinkState where
  accounts := accounts
  syncs := []
  signIns := []
  pushes := []
  resolved := []

def LinkState.users (s : LinkState) : Users := s.accounts.users

/-- The statements. Any call also stops where a statement of it fails. -/
inductive LinkLabel where
  | list (provider : OpenedProvider) (force : Bool) (people : List Person)
  | sync (i : Nat) (now : Int) (newID : String)
  | syncFails (i : Nat)
  | resolve (provider : OpenedProvider) (person : Person)
  | signIn (i : Nat) (now : Int) (newID : String)
  | signInFails (i : Nat)
  | push (provider : OpenedProvider) (request : PushRequest)
  | pushed (i : Nat) (now : Int) (newID : String)
  | pushFails (i : Nat)
  | setPassword (id hash : String) (now : Int)

variable [Casing] in
/-- One statement. -/
def linkStep (s : LinkState) : LinkLabel → Option LinkState
  | .list provider force people =>
    some { s with syncs := s.syncs ++ [some (.start s.users provider force people)] }
  | .sync i now newID =>
    match s.syncs[i]? with
    | some (some w) =>
      let (users, w) := w.next s.users now newID
      some { s with accounts := { s.accounts with users := users }, syncs := s.syncs.set i w }
    | _ => none
  | .syncFails i => some { s with syncs := s.syncs.set i none }
  | .resolve provider person =>
    some { s with signIns := s.signIns ++ [some ⟨provider, person, .signIn .start⟩] }
  | .signIn i now newID =>
    match s.signIns[i]? with
    | some (some w) =>
      let (users, rest, answer) := w.next s.users now newID
      some { s with
        accounts := { s.accounts with users := users }
        signIns := s.signIns.set i rest
        resolved := (answer.map (Resolved.mk w.provider.id w.person.externalID)).toList ++
          s.resolved }
    | _ => none
  | .signInFails i => some { s with signIns := s.signIns.set i none }
  | .push provider request =>
    some { s with pushes := s.pushes ++ [some ⟨provider, request, .received⟩] }
  | .pushed i now newID =>
    match s.pushes[i]? with
    | some (some w) =>
      let (accounts, w) := w.next s.accounts now newID
      some { s with accounts := accounts, pushes := s.pushes.set i w }
    | _ => none
  | .pushFails i => some { s with pushes := s.pushes.set i none }
  | .setPassword id hash now =>
    match UserRepo.setPasswordHash s.users now id hash with
    | .error _ => some s
    | .ok users => some { s with accounts := { s.accounts with users := users } }

/-! ## What a sign-in has in hand -/

/-- The account is linked to the provider and the subject. -/
def Holds (tbl : Users) (idpID externalID : String) (u : User) : Prop :=
  ∃ v ∈ tbl.rows, v.id = u.id ∧ v.LinkedTo idpID externalID

/-- A sign-in with an account in hand has one of its subject. -/
def ResolveRun.Sound (tbl : Users) (w : ResolveRun) : Prop :=
  w.provider.id ≠ "" → w.person.externalID ≠ "" → ∀ u,
    w.stage = .signIn (.resolved u) ∨ w.stage = .answering u →
      Holds tbl w.provider.id w.person.externalID u

variable {w : ResolveRun} {u : User} {externalID idpID : String}

theorem Holds.keeps (h : Holds tbl idpID externalID u) (hkeeps : KeepsLinks tbl tbl')
    (hidp : idpID ≠ "") (hext : externalID ≠ "") : Holds tbl' idpID externalID u := by
  obtain ⟨v, hv, hid, rfl, rfl⟩ := h
  obtain ⟨w, hw, hwid, hto⟩ := hkeeps v hv ⟨hidp, hext⟩
  exact ⟨w, hw, hwid.trans hid, hto⟩

theorem ResolveRun.Sound.keeps (h : w.Sound tbl) (hkeeps : KeepsLinks tbl tbl') : w.Sound tbl' :=
  fun hidp hext u hstage => (h hidp hext u hstage).keeps hkeeps hidp hext

theorem Holds.of_linkExternal (h : UserRepo.linkExternal tbl now u.id idpID externalID = .ok tbl') :
    Holds tbl' idpID externalID u := by
  obtain ⟨⟨v, hv, hlinkable⟩, -, rfl⟩ := UserRepo.linkExternal_ok h
  have hid : v.id = u.id := by
    simp only [UserRepo.linkable, Bool.and_eq_true, decide_eq_true_eq] at hlinkable
    exact hlinkable.1.1
  exact ⟨_, Table.mem_update.mpr ⟨v, hv, .inl ⟨hlinkable, rfl⟩⟩, hid, rfl, rfl⟩

variable [Casing] in
/-- A sign-in that comes to an account in its next statement has one of its subject:
the one it found, or the one it linked. -/
theorem SignInRun.next_resolved {w r : SignInRun} (h : (w.next tbl now newID).2 = some r)
    (hstage : r.stage = .resolved u) :
    Holds (w.next tbl now newID).1 w.provider.id w.person.externalID u := by
  unfold SignInRun.next at h ⊢
  cases hw : w.stage <;> simp only [hw] at h ⊢
  case start =>
    split at h
    · cases h
    rename_i hvalid
    rw [if_neg hvalid]
    split at h <;> cases h <;> cases hstage
    rename_i hget
    have hfound := find?_some hget
    rw [Bool.and_eq_true, decide_eq_true_eq, decide_eq_true_eq] at hfound
    exact ⟨_, mem_of_find?_eq_some hget, rfl, hfound⟩
  case adopt =>
    split at h
    · cases h
      cases hstage
    split at h <;> cases h
    cases hstage
  case adopting v =>
    split at h <;> cases h <;> cases hstage
    rename_i hlink
    exact Holds.of_linkExternal (u := v.linked w.provider w.person) hlink
  case creating =>
    split at h
    · cases h
    split at h <;> cases h
  case resolved v =>
    split at h
    · split at h <;> cases h
    · cases h

namespace ResolveRun

/-- What a statement of `Resolve` does. -/
inductive Effect (w : ResolveRun) (tbl : Users) : Users × Option ResolveRun × Option User → Prop
  /-- It is over, without an account. -/
  | fails (tbl' : Users) (h : LinkChange tbl tbl') : Effect w tbl (tbl', none, none)
  /-- It goes on; an account it then has in hand is one it had, or one of its subject. -/
  | goes (tbl' : Users) (stage : ResolveStage) (h : LinkChange tbl tbl')
      (hhand : ∀ u, stage = .signIn (.resolved u) ∨ stage = .answering u →
        w.stage = .signIn (.resolved u) ∨ Holds tbl' w.provider.id w.person.externalID u) :
      Effect w tbl (tbl', some { w with stage := stage }, none)
  /-- It returns the account it had in hand, read again. -/
  | answers (u v : User) (hstage : w.stage = .answering u) (hget : tbl.get u.id = some v) :
      Effect w tbl (tbl, none, some v)

variable [Casing] in
/-- The statements up to the account in hand are those of `SignInRun`. -/
theorem Effect.of_signIn (w : ResolveRun) (tbl : Users) (now : Int) (newID : String)
    (stage : SignInStage) :
    Effect w tbl
      ((SignInRun.next ⟨w.provider, w.person, stage⟩ tbl now newID).1,
        (SignInRun.next ⟨w.provider, w.person, stage⟩ tbl now newID).2.map fun r =>
          { w with stage := .signIn r.stage }, none) := by
  have hchange : LinkChange tbl (SignInRun.next ⟨w.provider, w.person, stage⟩ tbl now newID).1 :=
    .of_writeEffect (F := fun _ => True) (SignInRun.next_writes now newID fun _ _ _ => trivial)
  cases hrest : (SignInRun.next ⟨w.provider, w.person, stage⟩ tbl now newID).2 with
  | none => exact .fails _ hchange
  | some r =>
    refine .goes _ (.signIn r.stage) hchange ?_
    rintro u (hstage | hstage)
    · exact .inr (SignInRun.next_resolved hrest (ResolveStage.signIn.inj hstage))
    · exact ResolveStage.noConfusion hstage

variable [Casing] in
theorem next_effect (w : ResolveRun) (tbl : Users) (now : Int) (newID : String) :
    Effect w tbl (w.next tbl now newID) := by
  unfold ResolveRun.next
  cases hw : w.stage with
  | signIn stage =>
    cases stage with
    | start => exact .of_signIn w tbl now newID .start
    | adopt => exact .of_signIn w tbl now newID .adopt
    | adopting u => exact .of_signIn w tbl now newID (.adopting u)
    | creating =>
      dsimp only
      split
      · exact .fails tbl (.refl tbl)
      split
      · rename_i tbl' hcreate
        refine .goes tbl' _ (.create rfl hcreate) ?_
        rintro u (hstage | hstage)
        · exact ResolveStage.noConfusion hstage
        · cases hstage
          exact .inr ⟨_, ((UserRepo.create_ok hcreate).2 _).mpr (.inr rfl), rfl, rfl, rfl⟩
      · exact .fails tbl (.refl tbl)
    | resolved u =>
      refine .goes _ (.answering u) ?_ ?_
      · exact .of_writeEffect (F := fun _ => True)
          (SignInRun.next_writes now newID fun _ _ _ => trivial)
      rintro v (hstage | hstage)
      · exact ResolveStage.noConfusion hstage
      · cases hstage
        exact .inl hw
  | answering u =>
    dsimp only
    split
    · exact .fails tbl (.refl tbl)
    cases hget : tbl.get u.id with
    | none => exact .fails tbl (.refl tbl)
    | some v => exact .answers u v hw hget

end ResolveRun

/-! ## Runs -/

/-- What holds after every statement. -/
structure LinkState.Inv (s : LinkState) : Prop where
  oneEach : OneEach s.users
  signIns : ∀ w, some w ∈ s.signIns → w.Sound s.users
  resolved : ∀ r ∈ s.resolved, r.idpID ≠ "" → r.externalID ≠ "" →
    r.account.LinkedTo r.idpID r.externalID

theorem LinkState.inv_init {accounts : Accounts} (h : OneEach accounts.users) :
    (LinkState.init accounts).Inv where
  oneEach := h
  signIns _ hw := nomatch hw
  resolved _ hr := nomatch hr

variable {s t : LinkState}

theorem LinkState.Inv.change (h : s.Inv) (hchange : LinkChange s.users t.users)
    (hsignIns : ∀ w, some w ∈ t.signIns → some w ∈ s.signIns) (hresolved : t.resolved = s.resolved) :
    t.Inv where
  oneEach := hchange.oneEach h.oneEach
  signIns w hw := (h.signIns w (hsignIns w hw)).keeps hchange.keepsLinks
  resolved := hresolved ▸ h.resolved

theorem LinkState.Inv.signIn (h : s.Inv) {i : Nat} (hw : s.signIns[i]? = some (some w))
    {r : Users × Option ResolveRun × Option User} (heffect : w.Effect s.users r) :
    LinkChange s.users r.1 ∧ LinkState.Inv { s with
      accounts := { s.accounts with users := r.1 }
      signIns := s.signIns.set i r.2.1
      resolved := (r.2.2.map (Resolved.mk w.provider.id w.person.externalID)).toList ++
        s.resolved } := by
  have hsound : w.Sound s.users := h.signIns w (mem_of_getElem? hw)
  have hset : ∀ {tbl' rest}, LinkChange s.users tbl' → (∀ w', some w' = rest → w'.Sound tbl') →
      ∀ w', some w' ∈ s.signIns.set i rest → w'.Sound tbl' := by
    intro tbl' rest hchange hrest w' hw'
    rcases mem_or_eq_of_mem_set hw' with hw' | heq
    · exact (h.signIns w' hw').keeps hchange.keepsLinks
    · exact hrest w' heq
  cases heffect with
  | fails tbl' hchange =>
    exact ⟨hchange, hchange.oneEach h.oneEach, hset hchange nofun, h.resolved⟩
  | goes tbl' stage hchange hhand =>
    refine ⟨hchange, hchange.oneEach h.oneEach, hset hchange ?_, h.resolved⟩
    rintro w' heq hidp hext u hstage
    cases heq
    rcases hhand u hstage with hhad | hholds
    · exact (hsound hidp hext u (.inl hhad)).keeps hchange.keepsLinks hidp hext
    · exact hholds
  | answers u v hstage hget =>
    refine ⟨.refl s.users, h.oneEach, hset (.refl s.users) nofun, ?_⟩
    intro r hr hidp hext
    rcases mem_cons.mp hr with rfl | hr
    · obtain ⟨v', hv', hid, hto⟩ := hsound hidp hext u (.inr hstage)
      obtain ⟨hv, hvid⟩ := Table.mem_of_get hget
      obtain rfl := s.users.eq_of_key_eq hv' hv (hid.trans hvid.symm)
      exact hto
    · exact h.resolved r hr hidp hext

variable [Casing] in
/-- **One step.** -/
theorem linkStep_inv {l : LinkLabel} (h : s.Inv)
    (hstep : linkStep s l = some t) : LinkChange s.users t.users ∧ t.Inv := by
  -- a statement of a call that is not a sign-in
  have hother : ∀ {t : LinkState}, LinkChange s.users t.users → t.signIns = s.signIns →
      t.resolved = s.resolved → LinkChange s.users t.users ∧ t.Inv := by
    intro t hchange hsignIns hresolved
    exact ⟨hchange, h.change hchange (fun w hw => hsignIns ▸ hw) hresolved⟩
  cases l <;> simp only [linkStep] at hstep
  case list | syncFails | push | pushFails =>
    cases hstep
    exact hother (.refl s.users) rfl rfl
  case sync i now newID =>
    split at hstep <;> cases hstep
    exact hother (.of_writeEffect (F := fun _ => True)
      (SyncRun.next_writes now newID fun _ _ _ _ => trivial)) rfl rfl
  case resolve provider person =>
    cases hstep
    refine ⟨.refl s.users, h.oneEach, ?_, h.resolved⟩
    intro w hw
    rcases mem_append.mp hw with hw | hw
    · exact h.signIns w hw
    · cases mem_singleton.mp hw
      rintro - - u (hstage | hstage)
      · exact SignInStage.noConfusion (ResolveStage.signIn.inj hstage)
      · exact ResolveStage.noConfusion hstage
  case signIn i now newID =>
    split at hstep <;> cases hstep
    rename_i w hw
    exact h.signIn hw (w.next_effect s.users now newID)
  case signInFails i =>
    cases hstep
    refine ⟨.refl s.users, h.change (.refl s.users) ?_ rfl⟩
    intro w hw
    rcases mem_or_eq_of_mem_set hw with hw | heq
    · exact hw
    · cases heq
  case pushed i now newID =>
    split at hstep <;> cases hstep
    rename_i w hw
    exact hother (.of_pushEffect (w.next_effect s.accounts now newID)) rfl rfl
  case setPassword id hash now =>
    split at hstep <;> cases hstep
    · exact hother (.refl s.users) rfl rfl
    · rename_i hset
      exact hother (.setPassword hset) rfl rfl

variable [Casing] in
/-- From a state in which the invariant holds on, links are kept. -/
theorem LinkState.Inv.keepsLinks {ls : List LinkLabel} (h : s.Inv)
    (hrun : Run linkStep s ls t) : KeepsLinks s.users t.users := by
  refine (hrun.keeps (fun t => t.Inv ∧ KeepsLinks s.users t.users) ?_ ⟨h, .refl s.users⟩).2
  rintro t l u - ⟨hinv, hkeeps⟩ hstep
  obtain ⟨hchange, hinv'⟩ := linkStep_inv hinv hstep
  exact ⟨hinv', hkeeps.trans hchange.keepsLinks⟩

variable [Casing] in
/-- **A subject has one account, and keeps it.** In every interleaving of sign-ins,
syncs and pushes through any providers with passwords being set, from any accounts
with one for each subject: that stays so; what `Resolve` returned for a subject was
linked to it; from any point on, linked accounts keep their links; and no statement
links an account that has a password. -/
theorem links_stand {accounts : Accounts} {ls : List LinkLabel} {s : LinkState}
    (hone : OneEach accounts.users) (h : Run linkStep (.init accounts) ls s) :
    OneEach s.users ∧
      (∀ r ∈ s.resolved, r.idpID ≠ "" → r.externalID ≠ "" →
        r.account.LinkedTo r.idpID r.externalID) ∧
      (∀ ls' t, Run linkStep s ls' t → KeepsLinks s.users t.users) ∧
      ∀ l t, linkStep s l = some t → LinksPasswordless s.users t.users := by
  have hinv : s.Inv := h.keeps LinkState.Inv (fun _ _ _ _ hinv hstep => (linkStep_inv hinv hstep).2)
    (LinkState.inv_init hone)
  refine ⟨hinv.oneEach, hinv.resolved, fun ls' t => hinv.keepsLinks, ?_⟩
  intro l t hstep
  exact (linkStep_inv hinv hstep).1.linksPasswordless

/-- An account made for Ann, with no password. -/
def madeForAnn : Accounts where
  users := ⟨[{ ann with idpID := "", externalID := "" }], by decide⟩
  scim _ := ⟨"", none⟩

/-- The provider creates Ann. -/
def createAnn : PushRequest :=
  .create ⟨"ann", "", "", "", "", "", false, "x-1", true, none⟩

/-- The provider pushes Ann during their first sign-in, which reads the account after
the push has linked it and links it to Ann's subject. -/
def annArrives : List LinkLabel :=
  [.push ⟨"ad", false, [.user]⟩ createAnn, .pushed 0 0 "",
    .resolve ⟨"ad", false, [.user]⟩ ⟨"s-1", "ann", "Ann", ""⟩, .signIn 0 0 "", .pushed 0 0 "",
    .signIn 0 0 "", .signIn 0 0 "", .signIn 0 0 "", .setPassword "ann" "hash" 0, .signIn 0 0 ""]

theorem links_stand_for_ann :
    ∃ s, Run linkStep (.init madeForAnn) annArrives s ∧ OneEach madeForAnn.users ∧
      (s.resolved.map fun r => (r.account.id, r.account.passwordHash)) = [("ann", "hash")] ∧
      OneEach s.users ∧
      (∀ r ∈ s.resolved, r.idpID ≠ "" → r.externalID ≠ "" →
        r.account.LinkedTo r.idpID r.externalID) ∧
      (∀ ls' t, Run linkStep s ls' t → KeepsLinks s.users t.users) ∧
      ∀ l t, linkStep s l = some t → LinksPasswordless s.users t.users := by
  have hone : OneEach madeForAnn.users := by
    intro u hu v hv _ _
    rw [mem_singleton.mp hu, mem_singleton.mp hv]
  exact Run.exists_of_decide (P := fun s => (s.resolved.map fun r =>
      (r.account.id, r.account.passwordHash)) = [("ann", "hash")])
    (by decide +kernel) fun _ hs hresolved => ⟨hone, hresolved, links_stand hone hs⟩

end Zanskar
