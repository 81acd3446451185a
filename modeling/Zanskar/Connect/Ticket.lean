import Zanskar.Lib.Machine
import Zanskar.Protocol

/-!
# Connect tickets (`internal/ticket/ticket.go`)

A ticket is what a WebSocket upgrade presents: single use, valid for thirty
seconds, and redeemed only from the address and by the sign-in that asked for it.
Everything the session will run with is fixed in it at issue.

The store is a map by token, and every call takes its lock, so a call is one
step. `redeem_issued` and `redeemed_once` follow one ticket through any calls of
other requests.
-/

namespace Zanskar.Ticket

/-- How long a ticket stays valid: thirty seconds. -/
def ttl : Int := 30 * 1000000000

/-- What a ticket authorises. -/
structure Grant where
  userID : String
  username : String
  /-- The browser session that requested it. -/
  sessionID : String
  targetID : String
  asgID : String
  asgInstanceID : String
  protocol : Protocol
  credentialID : String
  policyID : String
  idleTimeout : Int
  maxSession : Int
  retentionDays : Int
  allowClipboard : Bool
  allowFileTransfer : Bool
  allowDevTools : Bool
  clientIP : String
  failoverFrom : String
  userSecret : String
  userKey : String
  issuedAt : Int
  expiresAt : Int
  deriving DecidableEq

/-- The live tickets, by token. -/
abbrev Store := Std.ExtTreeMap String Grant

namespace Store

/-- `gc`: drops the tickets past their end. -/
def gc (s : Store) (now : Int) : Store := s.filter fun _ g => g.expiresAt ≥ now

/-- `Issue`, with the token drawn for it. -/
def issue (s : Store) (tok : String) (g : Grant) (now : Int) : Store :=
  (s.gc now).insert tok { g with issuedAt := now, expiresAt := now + ttl }

/-- `Redeem`: the grant, and the store without the ticket. A ticket presented
late, from elsewhere or by another sign-in is spent too. -/
def redeem (s : Store) (tok clientIP sessionID : String) (now : Int) : Option Grant × Store :=
  match s[tok]? with
  | none => (none, s)
  | some g =>
    if now > g.expiresAt ∨ g.clientIP ≠ clientIP ∨ g.sessionID ≠ sessionID then
      (none, s.erase tok)
    else (some g, s.erase tok)

variable {s : Store} {tok clientIP sessionID : String} {now : Int} {g : Grant} {s' : Store}

/-- What a redemption returns was stored under the token, is not past its end,
and was asked for by the same sign-in from the same address. -/
theorem redeem_eq_some (h : (s.redeem tok clientIP sessionID now).1 = some g) :
    s[tok]? = some g ∧ now ≤ g.expiresAt ∧ g.clientIP = clientIP ∧
      g.sessionID = sessionID := by
  unfold redeem at h
  split at h
  · cases h
  · rename_i g' hg
    split at h
    · cases h
    · rename_i hok
      push Not at hok
      cases h
      exact ⟨hg, hok⟩

/-! ## One ticket through the calls of others -/

/-- A call on the store. -/
inductive Call where
  | issue (tok : String) (g : Grant) (now : Int)
  | redeem (tok clientIP sessionID : String) (now : Int)

/-- One call, under the store's lock. -/
def step (s : Store) : Call → Option Store
  | .issue tok g now => some (s.issue tok g now)
  | .redeem tok clientIP sessionID now => some (s.redeem tok clientIP sessionID now).2

/-- The call does not draw the token. -/
def Call.Spares (tok : String) : Call → Prop
  | .issue tok' _ _ => tok' ≠ tok
  | .redeem _ _ _ _ => True

theorem getElem?_issue_self :
    (s.issue tok g now)[tok]? = some { g with issuedAt := now, expiresAt := now + ttl } := by
  unfold issue
  exact Std.ExtTreeMap.getElem?_insert_self

/-- A call that does not draw the token leaves its ticket, or no ticket, there. -/
theorem getElem?_of_step {call : Call} (hspares : call.Spares tok) (h : s.step call = some s')
    (hg : s'[tok]? = some g) : s[tok]? = some g := by
  cases call with
  | issue tok' g₀ now₀ =>
    cases h
    have hne : tok' ≠ tok := hspares
    rw [issue, Std.ExtTreeMap.getElem?_insert,
      if_neg fun heq => hne (Std.LawfulEqCmp.eq_of_compare heq), gc,
      Std.ExtTreeMap.getElem?_filter] at hg
    obtain ⟨hget, -⟩ := Option.pfilter_eq_some_iff.mp hg
    exact hget
  | redeem tok' ip sid now₀ =>
    cases h
    unfold redeem at hg
    split at hg
    · exact hg
    · have herase : ∀ {o : Option Grant × Store}, o.2 = s.erase tok' → o.2[tok]? = some g →
          s[tok]? = some g := by
        intro o ho hget
        rw [ho, Std.ExtTreeMap.getElem?_erase] at hget
        split at hget
        · cases hget
        · exact hget
      split at hg <;> exact herase rfl hg

/-- **A ticket is redeemed as issued.** Whatever other requests issue and redeem
in between, what a redemption returns for the token is the grant that was issued
with it. -/
theorem redeem_issued {now₁ now₂ : Int} {calls : List Call} {g' : Grant}
    (hcalls : Lib.RunWhere step (fun _ call => call.Spares tok) (s.issue tok g now₁) calls s')
    (h : (s'.redeem tok clientIP sessionID now₂).1 = some g') :
    g' = { g with issuedAt := now₁, expiresAt := now₁ + ttl } := by
  refine hcalls.keeps (fun t => ∀ k, t[tok]? = some k →
    k = { g with issuedAt := now₁, expiresAt := now₁ + ttl }) ?_ ?_ g' (redeem_eq_some h).1
  · exact fun t call u hspares hstored hstep k hk => hstored k (getElem?_of_step hspares hstep hk)
  · intro k hk
    rw [getElem?_issue_self] at hk
    exact (Option.some.inj hk).symm

theorem getElem?_redeem_self : (s.redeem tok clientIP sessionID now).2[tok]? = none := by
  unfold redeem
  split
  · assumption
  · split <;> exact Std.ExtTreeMap.getElem?_erase_self

/-- **A ticket is redeemed once**, whatever other requests issue and redeem: a redemption returns
the grant as it was issued, at most thirty seconds later and only to the sign-in and the address
that asked for it; and behind the first redemption, whoever tried it, no other returns anything. -/
theorem redeemed_once {now₁ : Int} {calls : List Call}
    (hcalls : Lib.RunWhere step (fun _ call => call.Spares tok) (s.issue tok g now₁) calls s') :
    (∀ ip sid now g', (s'.redeem tok ip sid now).1 = some g' →
      g' = { g with issuedAt := now₁, expiresAt := now₁ + ttl } ∧ now ≤ now₁ + ttl ∧
        ip = g.clientIP ∧ sid = g.sessionID) ∧
      ∀ ip sid now calls' t, Lib.RunWhere step (fun _ call => call.Spares tok)
        (s'.redeem tok ip sid now).2 calls' t →
          ∀ ip' sid' now', (t.redeem tok ip' sid' now').1 = none := by
  constructor
  · intro ip sid now g' hredeem
    obtain ⟨-, htime, hip, hsid⟩ := redeem_eq_some hredeem
    cases redeem_issued hcalls hredeem
    exact ⟨rfl, htime, hip.symm, hsid.symm⟩
  · intro ip sid now calls' t hcalls' ip' sid' now'
    have hspent : ∀ k, t[tok]? ≠ some k :=
      hcalls'.keeps (fun t => ∀ k, t[tok]? ≠ some k)
        (fun _ _ _ hspares hnone hstep k hk => hnone k (getElem?_of_step hspares hstep hk))
        fun k hk => by cases getElem?_redeem_self.symm.trans hk
    exact Option.eq_none_iff_forall_ne_some.mpr fun k hk => hspent k (redeem_eq_some hk).1

/-- A ticket of `u`, for ssh on the host `h`. -/
def ticketOfU : Grant :=
  ⟨"u", "u", "s", "h", "", "", .ssh, "", "p", 0, 0, 0, false, false, false, "ip", "", "", "", 0, 0⟩

/-- Another request of `u` is issued a ticket and redeems it. -/
def another (tok : String) (now : Int) : List Call :=
  [.issue tok ticketOfU now, .redeem tok "ip" "s" (now + 1)]

theorem redeemed_once_by_u :
    ∃ s, Lib.RunWhere step (fun _ call => call.Spares "t") (issue ∅ "t" ticketOfU 0)
        (another "v" 1) s ∧
      (s.redeem "t" "ip" "s" 3).1.isSome ∧
      ∃ t, Lib.RunWhere step (fun _ call => call.Spares "t") (s.redeem "t" "ip" "s" 3).2
          (another "w" 4) t ∧ (t.redeem "t" "ip" "s" 6).1 = none := by
  have hcalls : ∀ s tok now, tok ≠ "t" → Lib.RunWhere step (fun _ call => call.Spares "t") s
      (another tok now) ((s.issue tok ticketOfU now).redeem tok "ip" "s" (now + 1)).2 :=
    fun s tok now hne => .cons hne rfl (.cons trivial rfl .nil)
  refine ⟨_, hcalls _ "v" 1 (by decide), by decide +kernel, _, hcalls _ "w" 4 (by decide), ?_⟩
  exact (redeemed_once (hcalls _ "v" 1 (by decide))).2 "ip" "s" 3 _ _
    (hcalls _ "w" 4 (by decide)) "ip" "s" 6

end Store

end Zanskar.Ticket
