import Zanskar.Connect.Recheck

/-!
# When a live session holds, grant by grant

`Handler.Holds` runs the gate. Here it is read off the grants a user is offered:
with windows not counted, a grant decides for a session when it covers the
session's target and protocol and, if it asks for approval, when no standing one
does (`DecidesLive`). A session holds when some grant decides, an approval is
active where only approval grants do, and every deciding grant agrees with the
session: it asks for no authenticator the user lacks and turns off no switch the
session runs with (`holds_iff_decides`).

Two facts follow that the administration of policies and groups rests on. What a
session is offered decides, not how it is listed (`holds_congr`). And more grants
are not safer (`holds_gained_iff`).
-/

namespace Zanskar

open List

/-- The grant decides for the target and protocol, windows not counted. -/
def DecidesLive (pols : List Policy) (ref : TargetRef) (proto : Protocol) (g : Grant) : Prop :=
  Offers pols g ∧ g.covers ref proto = true ∧
    (g.access = .approval →
      ∀ g', Offers pols g' → g'.covers ref proto = true → g'.access = .approval)

/-- The grant decides for the target and protocol, windows honoured or not. -/
def Decides (zones : Zones) (now : Int) (windows : Bool) (pols : List Policy) (ref : TargetRef)
    (proto : Protocol) (g : Grant) : Prop :=
  Offers pols g ∧ g.admits zones ref proto now windows = true ∧
    (g.access = .approval →
      ∀ g', Offers pols g' → g'.admits zones ref proto now windows = true → g'.access = .approval)

section Deciding

variable {zones : Zones} {ref : TargetRef} {proto : Protocol} {now : Int} {pols : List Policy}
  {g : Grant}

/-- The candidates are the grants offered that cover, inside a window where windows are honoured. -/
theorem exists_candidate_admits_iff (windows : Bool) :
    (∃ c ∈ candidates zones ref proto now windows pols, c.g = g) ↔
      Offers pols g ∧ g.admits zones ref proto now windows := by
  constructor
  · rintro ⟨c, hc, rfl⟩
    obtain ⟨hp, hen, hg, hadm⟩ := mem_candidates.mp hc
    exact ⟨⟨c.p, hp, hen, hg⟩, hadm⟩
  · rintro ⟨⟨p, hp, hen, hg⟩, hadm⟩
    exact ⟨⟨p, g⟩, mem_candidates.mpr ⟨hp, hen, hg, hadm⟩, rfl⟩

/-- No standing grant is a candidate when all candidates ask for approval. -/
theorem standing_eq_nil_iff {windows : Bool} :
    standing zones ref proto now windows pols = [] ↔
      ∀ g, Offers pols g → g.admits zones ref proto now windows → g.access = .approval := by
  rw [eq_nil_iff_forall_not_mem]
  constructor
  · intro hnone g hoff hadm
    obtain ⟨c, hc, rfl⟩ := (exists_candidate_admits_iff windows).mpr ⟨hoff, hadm⟩
    by_contra hacc
    exact hnone c (mem_standing.mpr ⟨hc, hacc⟩)
  · intro hall c hc
    obtain ⟨hcand, hacc⟩ := mem_standing.mp hc
    obtain ⟨hoff, hadm⟩ := (exists_candidate_admits_iff windows).mp ⟨c, hcand, rfl⟩
    exact hacc (hall c.g hoff hadm)

theorem exists_deciding_decides_iff (windows : Bool) :
    (∃ c ∈ deciding zones ref proto now windows pols, c.g = g) ↔
      Decides zones now windows pols ref proto g := by
  unfold deciding
  split
  · -- no standing grant is a candidate: the approval grants decide
    rename_i hs
    rw [List.isEmpty_iff] at hs
    have hall := standing_eq_nil_iff.mp hs
    constructor
    · rintro ⟨c, hc, rfl⟩
      obtain ⟨hoff, hadm⟩ :=
        (exists_candidate_admits_iff windows).mp ⟨c, (mem_approval.mp hc).1, rfl⟩
      exact ⟨hoff, hadm, fun _ => hall⟩
    · rintro ⟨hoff, hadm, -⟩
      obtain ⟨c, hc, rfl⟩ := (exists_candidate_admits_iff windows).mpr ⟨hoff, hadm⟩
      exact ⟨c, mem_approval.mpr ⟨hc, hall c.g hoff hadm⟩, rfl⟩
  · -- some is: only standing grants decide
    rename_i hs
    rw [List.isEmpty_iff] at hs
    constructor
    · rintro ⟨c, hc, rfl⟩
      obtain ⟨hcand, hacc⟩ := mem_standing.mp hc
      obtain ⟨hoff, hadm⟩ := (exists_candidate_admits_iff windows).mp ⟨c, hcand, rfl⟩
      exact ⟨hoff, hadm, fun happ => absurd happ hacc⟩
    · rintro ⟨hoff, hadm, honly⟩
      obtain ⟨c, hc, rfl⟩ := (exists_candidate_admits_iff windows).mpr ⟨hoff, hadm⟩
      refine ⟨c, mem_standing.mpr ⟨hc, fun happ => hs ?_⟩, rfl⟩
      exact standing_eq_nil_iff.mpr (honly happ)

theorem admits_live : g.admits zones ref proto now false = g.covers ref proto := by
  simp [Grant.admits, Grant.windowOpen]

theorem exists_candidate_iff :
    (∃ c ∈ candidates zones ref proto now false pols, c.g = g) ↔
      Offers pols g ∧ g.covers ref proto := by
  rw [exists_candidate_admits_iff, admits_live]

theorem standing_live_eq_nil_iff :
    standing zones ref proto now false pols = [] ↔
      ∀ g, Offers pols g → g.covers ref proto → g.access = .approval := by
  simp [standing_eq_nil_iff, admits_live]

/-- The deciding grants of the evaluator, windows not counted. -/
theorem exists_deciding_iff :
    (∃ c ∈ deciding zones ref proto now false pols, c.g = g) ↔ DecidesLive pols ref proto g := by
  simp [exists_deciding_decides_iff, Decides, DecidesLive, admits_live]

/-- A property of all deciding grants, in both readings. -/
theorem forall_deciding_iff {P : Grant → Prop} :
    (∀ c ∈ deciding zones ref proto now false pols, P c.g) ↔
      ∀ g, DecidesLive pols ref proto g → P g := by
  constructor
  · intro h g hg
    obtain ⟨c, hc, rfl⟩ := exists_deciding_iff.mpr hg
    exact h c hc
  · intro h c hc
    exact h c.g (exists_deciding_iff.mp ⟨c, hc, rfl⟩)

end Deciding

/-! ## Sessions -/

/-- An approval of the user for the target and protocol is active, or none is
looked for. -/
def Gate.Approved (g : Gate) (userID : String) (ref : TargetRef) (proto : Protocol)
    (now : Int) : Prop :=
  ∀ has, g.grants = some has → has userID ref.id ref.asgID proto now = .ok true

theorem Gate.granted_eq_true_iff {g : Gate} {d : Decision} {userID : String} {ref : TargetRef}
    {proto : Protocol} {now : Int} :
    g.granted d userID ref proto now = .ok true ↔
      (d.requireApproval → g.Approved userID ref proto now) := by
  unfold granted Approved
  cases g.grants with
  | none => simp
  | some has => cases d.requireApproval <;> simp

namespace Handler

/-- The grant agrees with the session: it asks for no authenticator the user
lacks, and leaves on the switches the session runs with. -/
structure Agrees (h : Handler) (l : Live) (g : Grant) : Prop where
  mfa : g.requireMFA = true → h.gate.passesMFA l.userID = true
  clipboard : l.allowClipboard = true → g.allowClipboard = true
  fileTransfer : l.allowFileTransfer = true → g.allowFileTransfer = true
  devTools : l.allowDevTools = true → g.allowDevTools = true

variable {h : Handler} {now : Int} {l : Live} {ref : TargetRef} {pols pols' : List Policy}
  {h' : Handler}

variable (href : h.sessionRef l.sessionID = .ok ref) (hpols : h.gate.forUser l.userID = .ok pols)

include href hpols

/-- The session is withdrawn or holds by the decision on the user's policies. -/
theorem holds_iff_evaluate :
    h.Holds now l ↔
      (evaluate h.zones pols ref l.protocol now false).allowed ∧
        h.gate.granted (evaluate h.zones pols ref l.protocol now false) l.userID ref l.protocol
          now = .ok true ∧
        h.gate.enrolled (evaluate h.zones pols ref l.protocol now false) l.userID = .ok true ∧
        broader l (evaluate h.zones pols ref l.protocol now false) = false := by
  constructor
  · rintro ⟨ref', a, href', ha, hnone, hbroad⟩
    cases href'.symm.trans href
    rw [Gate.admitLive, Gate.admitWith_eq hpols] at ha
    obtain ⟨rfl, hall, hgranted, henrolled⟩ := Gate.check_eq_admitted_iff.mp ⟨ha, hnone⟩
    exact ⟨hall, hgranted, henrolled, hbroad⟩
  · rintro ⟨hall, hgranted, henrolled, hbroad⟩
    refine ⟨ref, ⟨evaluate h.zones pols ref l.protocol now false, none⟩, href, ?_, rfl, hbroad⟩
    rw [Gate.admitLive, Gate.admitWith_eq hpols]
    exact (Gate.check_eq_admitted_iff.mpr ⟨rfl, hall, hgranted, henrolled⟩).1

/-- **When a session holds**, by the grants its user is offered. -/
theorem holds_iff_decides :
    h.Holds now l ↔
      (∃ g, Offers pols g ∧ g.covers ref l.protocol) ∧
        ((∀ g, Offers pols g → g.covers ref l.protocol → g.access = .approval) →
          h.gate.Approved l.userID ref l.protocol now) ∧
        ∀ g, DecidesLive pols ref l.protocol g → h.Agrees l g := by
  rw [holds_iff_evaluate href hpols, evaluate_allowed_iff]
  have hcand : candidates h.zones ref l.protocol now false pols ≠ [] ↔
      ∃ g, Offers pols g ∧ g.covers ref l.protocol := by
    constructor
    · intro hne
      obtain ⟨c, hc⟩ := List.exists_mem_of_ne_nil _ hne
      exact ⟨c.g, exists_candidate_iff.mp ⟨c, hc, rfl⟩⟩
    · rintro ⟨g, hg⟩
      obtain ⟨c, hc, -⟩ := exists_candidate_iff.mpr hg
      exact List.ne_nil_of_mem hc
  rw [← hcand]
  refine and_congr_right fun hne => ?_
  obtain ⟨hclip, hfile, hdev⟩ := evaluate_switches hne
  rw [Gate.granted_eq_true_iff, evaluate_requireApproval hne, List.isEmpty_iff,
    standing_live_eq_nil_iff, Gate.enrolled_eq_true_iff, evaluate_requireMFA_iff hne,
    broader_eq_false_iff, hclip, hfile, hdev, forall_deciding_iff (P := (Grant.allowClipboard ·)),
    forall_deciding_iff (P := (Grant.allowFileTransfer ·)),
    forall_deciding_iff (P := (Grant.allowDevTools ·))]
  refine and_congr_right fun _ => ?_
  constructor
  · rintro ⟨hmfa, hclip, hfile, hdev⟩ g hg
    refine ⟨fun hreq => ?_, fun hon => hclip hon g hg, fun hon => hfile hon g hg,
      fun hon => hdev hon g hg⟩
    obtain ⟨c, hc, rfl⟩ := exists_deciding_iff.mpr hg
    exact hmfa ⟨c, hc, hreq⟩
  · intro hagree
    refine ⟨?_, fun hon g hg => (hagree g hg).clipboard hon,
      fun hon g hg => (hagree g hg).fileTransfer hon, fun hon g hg => (hagree g hg).devTools hon⟩
    rintro ⟨c, hc, hreq⟩
    exact (hagree c.g (exists_deciding_iff.mp ⟨c, hc, rfl⟩)).mfa hreq

/-- What is offered decides, not how it is listed: two states of the gateway that
differ in the policies alone, and offer the user the same grants, hold the same
sessions. -/
theorem holds_congr (href' : h'.sessionRef l.sessionID = .ok ref)
    (hgrants : h'.gate.grants = h.gate.grants) (hmfa : h'.gate.mfaEnrolled = h.gate.mfaEnrolled)
    (hpols' : h'.gate.forUser l.userID = .ok pols')
    (hoffers : ∀ g, Offers pols' g ↔ Offers pols g) : h'.Holds now l ↔ h.Holds now l := by
  rw [holds_iff_decides href hpols, holds_iff_decides href' hpols']
  have hagrees : ∀ g, h'.Agrees l g ↔ h.Agrees l g := by
    intro g
    have hpass : h'.gate.passesMFA l.userID = h.gate.passesMFA l.userID := by
      unfold Gate.passesMFA
      rw [hmfa]
    constructor <;> rintro ⟨hm, hc, hf, hd⟩
    · exact ⟨by rwa [← hpass], hc, hf, hd⟩
    · exact ⟨by rwa [hpass], hc, hf, hd⟩
  simp [hoffers, DecidesLive, hagrees, Gate.Approved, hgrants]

/-- **More grants are not safer.** A session that holds under some grants holds
under more exactly when every new grant that decides agrees with it. -/
theorem holds_gained_iff (href' : h'.sessionRef l.sessionID = .ok ref)
    (hgrants : h'.gate.grants = h.gate.grants) (hmfa : h'.gate.mfaEnrolled = h.gate.mfaEnrolled)
    (hpols' : h'.gate.forUser l.userID = .ok pols')
    (hmore : ∀ g, Offers pols g → Offers pols' g) (hholds : h.Holds now l) :
    h'.Holds now l ↔ ∀ g, Offers pols' g → ¬ Offers pols g →
      DecidesLive pols' ref l.protocol g → h'.Agrees l g := by
  obtain ⟨⟨g₀, hoff₀, hcov₀⟩, happroved, hagree⟩ := (holds_iff_decides href hpols).mp hholds
  have hpass : h'.gate.passesMFA l.userID = h.gate.passesMFA l.userID := by
    unfold Gate.passesMFA
    rw [hmfa]
  rw [holds_iff_decides href' hpols']
  constructor
  · rintro ⟨-, -, hagree'⟩ g _ _ hdecides
    exact hagree' g hdecides
  · intro hgained
    refine ⟨⟨g₀, hmore g₀ hoff₀, hcov₀⟩, ?_, ?_⟩
    · -- only approval grants cover with more grants, so only they did before
      intro hall
      have hbefore := happroved fun g hoff hcov => hall g (hmore g hoff) hcov
      unfold Gate.Approved
      rw [hgrants]
      exact hbefore
    · rintro g ⟨hoff', hcov, honly⟩
      by_cases hoff : Offers pols g
      · -- what decides among more grants decided among fewer
        have hdecided : DecidesLive pols ref l.protocol g :=
          ⟨hoff, hcov, fun happ g' hg' => honly happ g' (hmore g' hg')⟩
        obtain ⟨hm, hc, hf, hd⟩ := hagree g hdecided
        exact ⟨by rwa [hpass], hc, hf, hd⟩
      · exact hgained g hoff' hoff ⟨hoff', hcov, honly⟩

end Handler

end Zanskar
