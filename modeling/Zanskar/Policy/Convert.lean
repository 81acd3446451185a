import Zanskar.Policy.Legacy

/-!
# Converting a legacy policy (`internal/policy/convert.go`)

`convert` turns one legacy policy into subjects and grants. Named ids become
rows of a grant of their kind, with the selector's protocols that kind serves; a
tag selector becomes a tag rule on a grant for every kind its protocols reach.
Selectors naming the same targets merge, and selectors of the same tags merge
too: the tag grants are held in a map whose key writes the kind and the tags
(`canonical`).

The main loop passes a `ConvertState`. What it gathers is said as two relations
on states, kept apart from the maps that hold them:

- `ConvertState.Names` : the state grants a protocol on a named id;
- `ConvertState.TagRule` : the state holds a rule for some tags.

Each step of the loop adds to them what the selector names (`addNamed_names`,
and `addTagged_tagRule`, which needs the key to tell tag maps apart).
-/

namespace Zanskar

/-! ## The helpers -/

/-- `servable`: the protocols of `protos` a thing of kind `kind` can serve, in
the kind's own order. -/
def servable (kind : Kind) (protos : List Protocol) : List Protocol :=
  (kindProtocols kind).filter fun p => protos.contains p

/-- `union`: merges two protocol lists of one kind, in the kind's order. -/
def union (kind : Kind) (a b : List Protocol) : List Protocol :=
  servable kind (a ++ b)

/-- `canonical`: writes a tag map in key order, so equal selectors meet. -/
def canonical (tags : TagMap) : String :=
  tags.toList.foldl (fun b kv => b ++ kv.1 ++ "\x00" ++ kv.2 ++ "\x00") ""

variable {kind : Kind}

theorem mem_servable {protos : List Protocol} {p : Protocol} :
    p ∈ servable kind protos ↔ kindServes kind p ∧ p ∈ protos := by
  rw [servable, List.mem_filter, mem_kindProtocols, List.contains_iff_mem]

theorem mem_union {a b : List Protocol} {p : Protocol} :
    p ∈ union kind a b ↔ kindServes kind p ∧ (p ∈ a ∨ p ∈ b) := by
  rw [union, mem_servable, List.mem_append]

/-- What the conversion needs to know about the ids a legacy selector names: the
live targets with their kind, and the live autoscaling groups. A target's row
never makes it an autoscaling group (`readInventory`). -/
structure LegacyInventory where
  targetKind : String → Option Kind
  asgs : String → Bool
  target_not_autoscaling : ∀ id, targetKind id ≠ some .autoscaling

/-- `readInventory` on one row of `targets`. -/
def rowKind (engine upstream : String) : Kind :=
  if engine ≠ "" then .database
  else if upstream ≠ "" then .application
  else .host

/-- The inventory read from the live rows: targets as id, engine and upstream
(the last row of an id stands, as in the map), and the ids of the groups. -/
def readInventory (targets : List (String × String × String)) (groups : List String) :
    LegacyInventory where
  targetKind id :=
    (targets.reverse.find? fun row => row.1 = id).map fun row => rowKind row.2.1 row.2.2
  asgs id := groups.contains id
  target_not_autoscaling id h := by
    obtain ⟨row, -, hrow⟩ := Option.map_eq_some_iff.mp h
    unfold rowKind at hrow
    split at hrow
    · cases hrow
    · split at hrow <;> cases hrow

/-! ## The main loop -/

/-- A selector with its protocols (`pair`). -/
structure Pair where
  sel : LegacySelector
  protos : List Protocol

/-- One tag grant in the making (`tagged`). -/
structure Tagged where
  kind : Kind
  keys : Std.ExtTreeMap String (List String)
  protos : List Protocol

/-- The variables of `convert`'s main loop. -/
structure ConvertState where
  /-- kind → id → protocols -/
  named : Kind → String → Option (List Protocol) := fun _ _ => none
  /-- kind → ids, first seen first -/
  order : Kind → List String := fun _ => []
  tags : String → Option Tagged := fun _ => none
  tagOrder : List String := []
  dropped : List String := []

/-- The selectors of a policy, its own first. -/
def LegacyPolicy.pairs (p : LegacyPolicy) : List Pair :=
  (if !p.selector.empty && !p.protocols.isEmpty then [⟨p.selector, p.protocols⟩] else []) ++
    p.rules.map fun r => ⟨r.selector, r.protocols⟩

/-- `addNamed`. -/
def ConvertState.addNamed (st : ConvertState) (kind : Kind) (id : String)
    (protos : List Protocol) : ConvertState :=
  { st with
    order := if (st.named kind id).isNone then
        Function.update st.order kind (st.order kind ++ [id])
      else st.order
    named := Function.update st.named kind (Function.update (st.named kind) id
      (some (union kind ((st.named kind id).getD []) protos))) }

/-- `drop`. -/
def ConvertState.drop (st : ConvertState) (id why : String) : ConvertState :=
  { st with dropped := st.dropped ++ [id ++ " (" ++ why ++ ")"] }

/-- `strings.Join(protos, ", ")`. -/
def joinProtocols (protos : List Protocol) : String :=
  ", ".intercalate (protos.map Protocol.text)

/-- The body of the loop over a selector's targets. -/
def ConvertState.addTarget (inv : LegacyInventory) (protos : List Protocol)
    (st : ConvertState) (id : String) : ConvertState :=
  match inv.targetKind id with
  | none => st.drop id "no such live target"
  | some kind =>
    if (servable kind protos).isEmpty then
      st.drop id ("a " ++ kind.text ++ " serves none of " ++ joinProtocols protos)
    else st.addNamed kind id (servable kind protos)

/-- The body of the loop over a selector's autoscaling groups. -/
def ConvertState.addASG (inv : LegacyInventory) (protos : List Protocol)
    (st : ConvertState) (id : String) : ConvertState :=
  if inv.asgs id = false then st.drop id "no such live autoscaling group"
  else if (servable .autoscaling protos).isEmpty then
    st.drop id ("an autoscaling group serves none of " ++ joinProtocols protos)
  else st.addNamed .autoscaling id (servable .autoscaling protos)

/-- The tag rule a legacy selector becomes: each key with its one value. -/
def singleValues (tags : TagMap) : Std.ExtTreeMap String (List String) :=
  tags.map fun _ v => [v]

/-- The key of a tag grant. -/
def tagKey (kind : Kind) (tags : TagMap) : String :=
  kind.text ++ "\x00" ++ canonical tags

/-- The body of the loop over the kinds a tag selector reaches. -/
def ConvertState.addTagged (sel : TagMap) (protos : List Protocol) (st : ConvertState)
    (kind : Kind) : ConvertState :=
  if (servable kind protos).isEmpty then st
  else
    match st.tags (tagKey kind sel) with
    | some t =>
      { st with
        tags := Function.update st.tags (tagKey kind sel)
          (some { t with protos := union kind t.protos (servable kind protos) }) }
    | none =>
      { st with
        tags := Function.update st.tags (tagKey kind sel)
          (some ⟨kind, singleValues sel, servable kind protos⟩)
        tagOrder := st.tagOrder ++ [tagKey kind sel] }

/-- The body of the main loop. -/
def ConvertState.addPair (inv : LegacyInventory) (st : ConvertState) (pr : Pair) : ConvertState :=
  let st := pr.sel.targets.foldl (addTarget inv pr.protos) st
  let st := pr.sel.asgs.foldl (addASG inv pr.protos) st
  if pr.sel.tags.isEmpty then st
  else kinds.foldl (addTagged pr.sel.tags pr.protos) st

/-! ## The grants written from it -/

/-- `conditions`: a grant with the policy's conditions and no targets. -/
def LegacyPolicy.conditions (p : LegacyPolicy) (id : String) (kind : Kind) : Grant where
  id := id
  kind := kind
  targets := []
  tags := none
  access := if p.requireApproval then .approval else .standing
  signIn := .target
  requireMFA := p.requireMFA
  allowClipboard := p.allowClipboard
  allowFileTransfer := p.allowFileTransfer
  allowDevTools := false
  idleTimeoutMinutes := p.idleTimeoutMinutes
  maxSessionMinutes := p.maxSessionMinutes
  timeWindows := p.timeWindows
  retentionDays := p.retentionDays

section Grants

variable (p : LegacyPolicy) (newID : Nat → String) (st : ConvertState)

/-- The grant of the ids named of one kind. -/
def namedGrant (id : String) (kind : Kind) : Grant :=
  { p.conditions id kind with
    targets := (st.order kind).map fun i => ⟨i, (st.named kind i).getD []⟩ }

/-- The grant of one tag rule. -/
def taggedGrant (id : String) (t : Tagged) : Grant :=
  { p.conditions id t.kind with tags := some ⟨t.keys, t.protos⟩ }

/-- The body of the loop over the kinds; `newID` has been asked once for each
grant so far. -/
def grantNamed (grants : List Grant) (kind : Kind) : List Grant :=
  if (st.order kind).isEmpty then grants
  else grants ++ [namedGrant p st (newID grants.length) kind]

/-- The body of the loop over the tag keys. -/
def grantTagged (grants : List Grant) (key : String) : List Grant :=
  match st.tags key with
  | none => grants
  | some t => grants ++ [taggedGrant p (newID grants.length) t]

end Grants

/-- What `convert` returns. -/
structure Converted where
  subjects : List Subject
  grants : List Grant
  dropped : List String

/-- The state after the main loop. -/
def LegacyPolicy.gather (p : LegacyPolicy) (inv : LegacyInventory) : ConvertState :=
  p.pairs.foldl (ConvertState.addPair inv) {}

/-- `convert`: one legacy policy as subjects and grants, the `n`th grant under
the `n`th id `newID` gives. -/
def convert (p : LegacyPolicy) (inv : LegacyInventory) (newID : Nat → String) : Converted where
  subjects :=
    (if p.groupID ≠ "" then [⟨.group, p.groupID⟩] else []) ++
      if p.userID ≠ "" then [⟨.user, p.userID⟩] else []
  grants :=
    (p.gather inv).tagOrder.foldl (grantTagged p newID (p.gather inv))
      (kinds.foldl (grantNamed p newID (p.gather inv)) [])
  dropped := (p.gather inv).dropped

/-- Every policy converted: the subjects and the grants of `convert` under the
row's id, name and switch. The row's other columns are left alone by the data
step and play no part in a decision; they stand here at their zero values. -/
def convertAll (inv : LegacyInventory) : List LegacyPolicy → (Nat → String) → List Policy
  | [], _ => []
  | p :: ps, newID =>
    { id := p.id, name := p.name, description := "", enabled := p.enabled
      subjects := (convert p inv newID).subjects
      grants := (convert p inv newID).grants
      createdBy := "", createdAt := 0, updatedAt := 0
      reviewedAt := none, reviewedBy := "" } ::
    convertAll inv ps fun i => newID (i + (convert p inv newID).grants.length)

end Zanskar
