import Zanskar.Session.Recordings

/-!
# What retention selects, and the date it shows (`internal/session/retention.go`, `session.go`)

The sweep counts back from now, the session list forwards from the end of the recording. Both
are read here against what a policy means: a recording past its last instant goes, and of the
others the oldest until the rest fits.

Both counts are in 64 bits, and `setRetention` refuses no number of days but a negative one.
`maxDays` is how far they go for the recordings of the years 1 to 9999.
-/

namespace Zanskar.Session

open Go List

/-- `keptUntil`. -/
def keptUntil (own finished : Option Int) (purged : Bool) (p : RetentionPolicy) : Option Int :=
  match purged, finished, own with
  | true, _, _ | _, none, _ => none
  | _, some _, some own => some own
  | _, some finished, none =>
    if 0 < p.maxAgeDays then some (addDays finished p.maxAgeDays) else none

/-- `WithRetention`, of a session with this recording. -/
def Recording.keptUntil (r : Recording) (p : RetentionPolicy) : Option Int :=
  Session.keptUntil r.retentionUntil r.finishedAt r.purgedAt.isSome p

/-- Whether the age rule picks the recording. -/
def Recording.AgedOut (r : Recording) (p : RetentionPolicy) (now : Int) : Prop :=
  ∃ c, r.candidate = some c ∧ (c.id, "age") ∈ selectForPurge [c] p now

/-! ## What a policy means -/

variable (cands : List PurgeCandidate) (p : RetentionPolicy) (now : Int)

/-- The last instant the candidate is kept for: its own date, or the age of the policy when it
has none. -/
def PurgeCandidate.date (c : PurgeCandidate) : Option Int :=
  match c.till with
  | some till => some till
  | none => if 0 < p.maxAgeDays then some (c.finished + p.maxAgeDays * day) else none

def PurgeCandidate.Past (c : PurgeCandidate) : Prop := ∃ till ∈ c.date p, till < now

instance (c : PurgeCandidate) : Decidable (c.Past p now) :=
  inferInstanceAs (Decidable (∃ till ∈ c.date p, till < now))

/-- The candidates that are not past their date. -/
def others : List PurgeCandidate := cands.filter fun c => ¬c.Past p now

def totalSize (cs : List PurgeCandidate) : Int := (cs.map PurgeCandidate.size).sum

/-- `n` is the length of the shortest run from the front without which `cs` fits the cap; a cap
of zero is none. -/
structure Shortest (cap : Int) (cs : List PurgeCandidate) (n : Nat) : Prop where
  fits : 0 < cap → totalSize (cs.drop n) ≤ cap
  needed : ∀ k < n, 0 < cap ∧ cap < totalSize (cs.drop k)

/-- The sweep selects the candidates past their date and the shortest run of the others. -/
def SelectsRight : Prop :=
  ∃ n, Shortest p.maxTotalBytes (others cands p now) n ∧
    ∀ id, (∃ reason, (id, reason) ∈ selectForPurge cands p now) ↔
      ∃ c ∈ cands, c.id = id ∧ (c.Past p now ∨ c ∈ (others cands p now).take n)

/-- The instants of a clock: from the year 1 on, as far as a `time.Time` goes. -/
abbrev ClockTime (t : Int) : Prop := firstTime ≤ t ∧ t ≤ lastTime

/-- The date shown is the instant after which the age rule picks the recording. -/
def ShowsRight (r : Recording) : Prop :=
  (∀ till, r.keptUntil p = some till → ∀ now, ClockTime now → (r.AgedOut p now ↔ till < now)) ∧
    (r.keptUntil p = none ↔ ∀ now, ClockTime now → ¬r.AgedOut p now)

/-- The last instant of the year 9999. -/
def lastDate : Int := 253402300799999999999

/-- A candidate with its instants in the years 1 to 9999. -/
structure PurgeCandidate.Dated (c : PurgeCandidate) : Prop where
  size : 0 ≤ c.size
  finished : firstTime ≤ c.finished ∧ c.finished ≤ lastDate
  till : ∀ till ∈ c.till, firstTime ≤ till ∧ till ≤ lastDate

/-- The days one can add to `lastDate` and stay before `lastTime`. -/
def maxDays : Int := 106751987515241

/-! ## Below the bound nothing wraps -/

section

variable {cands p now} {c : PurgeCandidate} (hdays : p.maxAgeDays ≤ maxDays)

include hdays

theorem PurgeCandidate.Dated.date_lt (hc : c.Dated) : ∀ till ∈ c.date p, till < lastTime := by
  have hlast : lastDate + maxDays * day < lastTime := by decide
  have hdated := hc.finished.2
  unfold date
  cases h : c.till with
  | some till =>
    rintro _ ⟨⟩
    exact ((hc.till till h).2).trans_lt (by decide)
  | none =>
    dsimp only
    split <;> rintro _ ⟨⟩
    unfold day at *
    omega

/-- The two counts, forwards from the end and back from now, cross at one instant. -/
theorem PurgeCandidate.expired_iff (hnow : ClockTime now) :
    c.expired p now ↔ c.Past p now := by
  unfold expired Past date
  cases c.till with
  | some till => simp
  | none =>
    by_cases hage : 0 < p.maxAgeDays
    · have hcut : addDays now (-p.maxAgeDays) = now + -p.maxAgeDays * day := by
        unfold ClockTime maxDays at *
        apply addDays_eq <;> simp only [firstTime, lastTime, unixToInternal, day] at * <;> omega
      simp only [hage, hcut, day, decide_true, Bool.true_and, decide_eq_true_eq, if_true,
        Option.mem_some_iff, exists_eq_left']
      omega
    · simp [hage]

theorem PurgeCandidate.Dated.keptUntil_eq (hc : c.Dated) :
    keptUntil c.till (some c.finished) false p = c.date p := by
  have hdated := hc.finished
  unfold keptUntil date
  cases c.till with
  | some till => rfl
  | none =>
    dsimp only
    split
    next hage =>
      unfold maxDays lastDate at *
      rw [addDays_eq] <;> simp only [firstTime, lastTime, unixToInternal, day] at * <;> omega
    next => rfl

end

/-! ## The size backstop -/

theorem totalSize_nonneg {cs : List PurgeCandidate} (hsize : ∀ c ∈ cs, 0 ≤ c.size) :
    0 ≤ totalSize cs :=
  sum_nonneg (by simpa using hsize)

theorem keptBytes_eq {cs : List PurgeCandidate} (hsize : ∀ c ∈ cs, 0 ≤ c.size)
    (htotal : totalSize cs < 2 ^ 63) : keptBytes cs = totalSize cs := by
  -- the sums on the way lie between zero and the total
  suffices h : ∀ kept, 0 ≤ kept → kept + totalSize cs < 2 ^ 63 →
      cs.foldl (fun kept c => wrap64 (kept + c.size)) kept = kept + totalSize cs from
    (h 0 le_rfl (by omega)).trans (Int.zero_add _)
  clear htotal
  induction cs with
  | nil => simp [totalSize]
  | cons c cs ih =>
    intro kept hkept htotal
    obtain ⟨hc, hcs⟩ := forall_mem_cons.mp hsize
    have hrest := totalSize_nonneg hcs
    have hcons : totalSize (c :: cs) = c.size + totalSize cs := by simp [totalSize]
    rw [foldl_cons, wrap64_eq (by omega) (by omega), ih hcs _ (by omega) (by omega), hcons,
      Int.add_assoc]

theorem sizeBackstop_shortest {cap : Int} (hcap : 0 < cap) {cs : List PurgeCandidate}
    (hsize : ∀ c ∈ cs, 0 ≤ c.size) (htotal : totalSize cs < 2 ^ 63) :
    ∃ n, Shortest cap cs n ∧ sizeBackstop cap (totalSize cs) cs = cs.take n := by
  induction cs with
  | nil => exact ⟨0, ⟨fun _ => hcap.le, fun k hk => absurd hk k.not_lt_zero⟩, rfl⟩
  | cons c cs ih =>
    obtain ⟨hc, hcs⟩ := forall_mem_cons.mp hsize
    have hrest := totalSize_nonneg hcs
    have hkept : totalSize (c :: cs) - c.size = totalSize cs := by simp [totalSize]
    rw [sizeBackstop]
    split
    next hfits => exact ⟨0, ⟨fun _ => hfits, fun k hk => absurd hk k.not_lt_zero⟩, rfl⟩
    next hover =>
      obtain ⟨n, ⟨hfits, hneeded⟩, htake⟩ := ih hcs (by omega)
      refine ⟨n + 1, ⟨hfits, fun k hk => ⟨hcap, ?_⟩⟩, ?_⟩
      · cases k with
        | zero => exact not_le.mp hover
        | succ k => exact (hneeded k (Nat.lt_of_succ_lt_succ hk)).2
      · rw [hkept, wrap64_eq (by omega) (by omega), htake, take_succ_cons]

variable {cands p now}

theorem selectForPurge_eq (hdays : p.maxAgeDays ≤ maxDays) (hcands : ∀ c ∈ cands, c.Dated)
    (htotal : totalSize cands < 2 ^ 63) (hnow : ClockTime now) :
    ∃ n, Shortest p.maxTotalBytes (others cands p now) n ∧
      selectForPurge cands p now =
        (cands.filter (·.Past p now)).map (fun c => (c.id, "age")) ++
          ((others cands p now).take n).map fun c => (c.id, "size") := by
  have hage : ∀ c ∈ cands, c.expired p now = decide (c.Past p now) := fun c hc =>
    Bool.eq_iff_iff.mpr ((PurgeCandidate.expired_iff hdays hnow).trans decide_eq_true_iff.symm)
  have hothers : (cands.filter fun c => !c.expired p now) = others cands p now :=
    filter_congr fun c hc => by rw [hage c hc, decide_not]
  have hsub : others cands p now <+ cands := filter_sublist
  have hsize : ∀ c ∈ others cands p now, 0 ≤ c.size := fun c hc => (hcands c (hsub.subset hc)).size
  have hkept : totalSize (others cands p now) < 2 ^ 63 :=
    ((hsub.map _).sum_le_sum (by simpa using fun c hc => (hcands c hc).size)).trans_lt htotal
  simp only [selectForPurge, hothers, filter_congr hage, keptBytes_eq hsize hkept]
  split
  next hcap =>
    obtain ⟨n, hn, htake⟩ := sizeBackstop_shortest hcap hsize hkept
    exact ⟨n, hn, by rw [← htake]⟩
  next hcap =>
    exact ⟨0, ⟨fun h => absurd h hcap, fun k hk => absurd hk k.not_lt_zero⟩, rfl⟩

theorem selectsRight (hdays : p.maxAgeDays ≤ maxDays) (hcands : ∀ c ∈ cands, c.Dated)
    (htotal : totalSize cands < 2 ^ 63) (hnow : ClockTime now) : SelectsRight cands p now := by
  obtain ⟨n, hn, heq⟩ := selectForPurge_eq hdays hcands htotal hnow
  have hsub : ∀ c ∈ (others cands p now).take n, c ∈ cands := fun c hc =>
    mem_of_mem_filter (mem_of_mem_take hc)
  refine ⟨n, hn, fun id => ?_⟩
  simp only [heq, mem_append, mem_map, mem_filter, decide_eq_true_eq, Prod.mk.injEq]
  constructor
  · rintro ⟨_, ⟨c, ⟨hc, hpast⟩, hid, -⟩ | ⟨c, hc, hid, -⟩⟩
    · exact ⟨c, hc, hid, .inl hpast⟩
    · exact ⟨c, hsub c hc, hid, .inr hc⟩
  · rintro ⟨c, hc, hid, hpast | hrun⟩
    · exact ⟨_, .inl ⟨c, ⟨hc, hpast⟩, hid, rfl⟩⟩
    · exact ⟨_, .inr ⟨c, hrun, hid, rfl⟩⟩

/-! ## The date shown -/

theorem agedOut_iff {r : Recording} {c : PurgeCandidate} (hr : r.candidate = some c) :
    r.AgedOut p now ↔ c.expired p now := by
  have hmem : (c.id, "age") ∈ selectForPurge [c] p now ↔ c.expired p now := by
    unfold selectForPurge
    split <;> simp
  simp [Recording.AgedOut, hr, hmem]

/-- A recording that is no candidate has no date; another has its candidate's. -/
theorem keptUntil_of_candidate (r : Recording) : match r.candidate with
    | none => r.keptUntil p = none
    | some c => r.keptUntil p = keptUntil c.till (some c.finished) false p := by
  unfold Recording.candidate Recording.keptUntil
  cases r.finishedAt <;> cases r.purgedAt <;> rfl

theorem showsRight (hdays : p.maxAgeDays ≤ maxDays) {r : Recording}
    (hr : ∀ c ∈ r.candidate, c.Dated) : ShowsRight p r := by
  have hdate := keptUntil_of_candidate (p := p) r
  cases hc : r.candidate with
  | none =>
    rw [hc] at hdate
    simp [ShowsRight, hdate, Recording.AgedOut, hc]
  | some c =>
    have hdated := hr c hc
    rw [hc] at hdate
    have hold {now : Int} (hnow : ClockTime now) : r.AgedOut p now ↔ c.Past p now :=
      (agedOut_iff hc).trans (PurgeCandidate.expired_iff hdays hnow)
    rw [ShowsRight, hdate.trans (hdated.keptUntil_eq hdays)]
    constructor
    · intro till htill now hnow
      simp [hold hnow, PurgeCandidate.Past, htill]
    · constructor
      · intro hnone now hnow
        simp [hold hnow, PurgeCandidate.Past, hnone]
      · intro hnever
        -- the last instant of the clock is past every date
        have hlast : ClockTime lastTime := by decide
        by_contra hsome
        obtain ⟨till, htill⟩ := Option.ne_none_iff_exists'.mp hsome
        exact hnever lastTime hlast ((hold hlast).mpr ⟨till, htill, hdated.date_lt hdays till htill⟩)

/-- What goes by age alone must be past its date. -/
theorem not_selectsRight {c : PurgeCandidate} (hage : c.expired p now) (hpast : ¬c.Past p now)
    (hfits : 0 < p.maxTotalBytes → c.size ≤ p.maxTotalBytes) : ¬SelectsRight [c] p now := by
  rintro ⟨n, hn, hids⟩
  have hgone : (c.id, "age") ∈ selectForPurge [c] p now := by simp [selectForPurge, hage]
  obtain ⟨_, hmem, -, hold | hrun⟩ := (hids c.id).mp ⟨_, hgone⟩
  · exact hpast (mem_singleton.mp hmem ▸ hold)
  · cases n with
    | zero => simp at hrun
    | succ n =>
      obtain ⟨hcap, hover⟩ := hn.needed 0 n.succ_pos
      have := hfits hcap
      simp [others, hpast, totalSize] at hover
      omega

/-- A recording of the last date is never too old where age leads past the last instant. -/
theorem not_past_lastDate {c : PurgeCandidate} (hdays : maxDays < p.maxAgeDays)
    (hfinished : c.finished = lastDate) (hown : c.till = none) (hnow : ClockTime now) :
    ¬c.Past p now := by
  have hlast : lastTime ≤ lastDate + (maxDays + 1) * day := by decide
  have hage : 0 < p.maxAgeDays := lt_trans (by decide) hdays
  have hle := hnow.2
  rintro ⟨till, htill, hlt⟩
  simp only [PurgeCandidate.date, hown, hfinished, hage, if_true, Option.mem_some_iff] at htill
  unfold day at *
  omega

/-- A sweep selects the recordings past their date and the shortest run of the oldest others,
and the date the list shows is the one the age rule goes by, exactly if age leads from no date
past the last instant. -/
theorem retention_exact_iff (p : RetentionPolicy) :
    ((∀ cands : List PurgeCandidate, (∀ c ∈ cands, c.Dated) → totalSize cands < 2 ^ 63 →
        ∀ now, ClockTime now → SelectsRight cands p now) ∧
      ∀ r : Recording, (∀ c ∈ r.candidate, c.Dated) → ShowsRight p r) ↔
    p.maxAgeDays ≤ maxDays := by
  constructor
  · rintro ⟨hselects, hshows⟩
    by_contra hdays
    have hdays := not_le.mp hdays
    let r : Recording := ⟨"r", "asciicast", .file "r", 0, "", some lastDate, none, none, true, true⟩
    let c : PurgeCandidate := ⟨"r", .file "r", 0, lastDate, none⟩
    have hr : r.candidate = some c := rfl
    have hc : c.Dated := ⟨le_rfl, by decide, by simp [c]⟩
    -- the sweep may not pick it at any time, and then no date may be shown
    have hnever : ∀ now, ClockTime now → ¬r.AgedOut p now := fun now hnow haged =>
      not_selectsRight ((agedOut_iff hr).mp haged) (not_past_lastDate hdays rfl rfl hnow) le_of_lt
        (hselects [c] (by simpa using hc) (by decide) now hnow)
    have hnone := (hshows r (by simpa [hr] using hc)).2.mpr hnever
    have hage : 0 < p.maxAgeDays := lt_trans (by decide) hdays
    simp [Recording.keptUntil, keptUntil, r, hage] at hnone
  · intro hdays
    exact ⟨fun cands hcands htotal now hnow => selectsRight hdays hcands htotal hnow,
      fun r hr => showsRight hdays hr⟩

/-- The most days an `int` holds: the cutoff is tomorrow, and a recording that has just ended
goes. -/
theorem longest_age_purges_at_once :
    let c : PurgeCandidate := ⟨"r", .file "r", 1, 1000, none⟩
    let p : RetentionPolicy := ⟨2 ^ 63 - 1, 0⟩
    c.Dated ∧ ClockTime 2000 ∧ selectForPurge [c] p 2000 = [("r", "age")] ∧
      ¬c.Past p 2000 ∧ ¬SelectsRight [c] p 2000 := by
  intro c p
  have hpast : ¬c.Past p 2000 := by decide
  exact ⟨⟨by decide, by decide, by simp [c]⟩, by decide, by decide, hpast,
    not_selectsRight (by decide) hpast (absurd · (lt_irrefl 0))⟩

end Zanskar.Session
