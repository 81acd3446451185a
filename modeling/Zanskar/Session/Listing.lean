import Mathlib.Data.List.Sort
import Zanskar.Go.Time

/-!
# The list of sessions (`Repo.List` in `internal/session/session.go`)

A page is the newest sessions that started before the cursor, and the cursor of the next page is
the start of the last session on it. `pages_complete_iff`: following the cursor shows every
matching session once, newest first, exactly when no page ends between two sessions that started
at the same time; the cursor skips the second. Of every time one is shown (`pages_show_every_time`).

Times are the microseconds that `TimeArg` stores and that the cursor is read back to.
-/

namespace Zanskar.Session

open List

/-- What `List` selects of a session and filters by. -/
structure SessionRow where
  id : String
  userID : String
  username : String
  targetID : String
  startedAt : Int
  endedAt : Option Int
  deriving DecidableEq

/-- Newer, or as new. -/
def Newer (a b : SessionRow) : Prop := b.startedAt ≤ a.startedAt

instance : DecidableRel Newer := fun a b => inferInstanceAs (Decidable (b.startedAt ≤ a.startedAt))

instance : Std.Total Newer := ⟨fun a b => le_total b.startedAt a.startedAt⟩

instance : IsTrans SessionRow Newer := ⟨fun _ _ _ hab hbc => le_trans hbc hab⟩

structure Filter where
  userID : String := ""
  username : String := ""
  targetID : String := ""
  openOnly : Bool := false
  started : Option Int := none
  limit : Int := 0

def Filter.pageSize (f : Filter) : Nat :=
  if f.limit ≤ 0 ∨ 500 < f.limit then 50 else f.limit.toNat

/-- The database: its rows, what a search for a part of a username finds, and the order it gives
rows in when it is asked for the newest first. Rows of one time may come in any order, and in
another one in every query. -/
structure SessionDb where
  rows : List SessionRow
  search : String → SessionRow → Bool
  order : List SessionRow → List SessionRow
  perm : ∀ rows, (order rows).Perm rows
  newestFirst : ∀ rows, (order rows).Pairwise Newer

variable (db : SessionDb) (f : Filter)

def SessionDb.selects (s : SessionRow) : Bool :=
  (f.userID = "" || s.userID = f.userID) && (f.username = "" || db.search f.username s) &&
    (f.targetID = "" || s.targetID = f.targetID) && (!f.openOnly || s.endedAt.isNone) &&
    f.started.all (· ≤ s.startedAt)

/-- The matching rows that started before the cursor. -/
def SessionDb.before (cursor : Option Int) : List SessionRow :=
  db.rows.filter fun s => db.selects f s && cursor.all (s.startedAt < ·)

/-- `List`: a page, and the cursor of the next one. -/
def SessionDb.list (cursor : Option Int) : List SessionRow × Option Int :=
  let out := (db.order (db.before f cursor)).take (f.pageSize + 1)
  if f.pageSize < out.length then
    (out.take f.pageSize, (out.take f.pageSize).getLast?.map SessionRow.startedAt)
  else (out, none)

/-- The sessions on the pages of at most that many requests, each for the cursor of the last. -/
def SessionDb.follow : Nat → Option Int → List SessionRow
  | 0, _ => []
  | n + 1, cursor =>
    match db.list f cursor with
    | (out, none) => out
    | (out, some next) => out ++ SessionDb.follow n (some next)

/-- No page of that size ends between two equal times. -/
def Uncut (size : Nat) (times : List Int) : Prop :=
  ∀ k, (k + 1) * size < times.length → times[(k + 1) * size - 1]? ≠ times[(k + 1) * size]?

variable {db f} {cursor : Option Int} {o : List SessionRow} {next : Int}

theorem Filter.pageSize_pos : 0 < f.pageSize := by
  unfold pageSize
  split <;> omega

variable {times : List Int} {size : Nat} {s : SessionRow} {n : Nat}

theorem uncut_of_length_le (h : times.length ≤ size) : Uncut size times := by
  intro k hk
  rw [Nat.succ_mul] at hk
  omega

theorem uncut_iff_drop (hsize : 0 < size) (h : size < times.length) :
    Uncut size times ↔ times[size - 1]? ≠ times[size]? ∧ Uncut size (times.drop size) := by
  have hshift : ∀ k, size + ((k + 1) * size - 1) = (k + 1 + 1) * size - 1 ∧
      size + (k + 1) * size = (k + 1 + 1) * size := by
    intro k
    rw [Nat.succ_mul (k + 1), Nat.succ_mul k]
    omega
  constructor
  · intro huncut
    refine ⟨by simpa using huncut 0 (by omega), fun k hk => ?_⟩
    rw [length_drop] at hk
    rw [getElem?_drop, getElem?_drop, (hshift k).1, (hshift k).2]
    exact huncut (k + 1) (by have := (hshift k).2; omega)
  · rintro ⟨hfirst, hrest⟩ k hk
    cases k with
    | zero => simpa using hfirst
    | succ k =>
      have := hrest k (by rw [length_drop]; have := (hshift k).2; omega)
      rwa [getElem?_drop, getElem?_drop, (hshift k).1, (hshift k).2] at this

/-- The times in the order of the rows do not depend on that order. -/
theorem map_startedAt_eq {a b : List SessionRow} (h : a.Perm b)
    (ha : a.Pairwise Newer) (hb : b.Pairwise Newer) :
    a.map SessionRow.startedAt = b.map SessionRow.startedAt :=
  (h.map _).eq_of_pairwise (fun _ _ _ _ hle hge => le_antisymm hge hle)
    (pairwise_map.mpr ha) (pairwise_map.mpr hb)

theorem mem_before_some (h : s ∈ db.before f (some next)) : s.startedAt < next := by
  have := (mem_filter.mp h).2
  simp only [Option.all_some, Bool.and_eq_true, decide_eq_true_eq] at this
  exact this.2

/-- A cursor below the one before leaves what started before it. -/
theorem before_some (h : ∀ c ∈ cursor, next ≤ c) :
    db.before f (some next) = (db.before f cursor).filter (·.startedAt < next) := by
  rw [SessionDb.before, SessionDb.before, filter_filter]
  refine filter_congr fun s _ => ?_
  cases cursor with
  | none => simp [Bool.and_comm]
  | some c =>
    have hc : next ≤ c := h c rfl
    by_cases hlt : s.startedAt < next
    · simp [hlt, hlt.trans_le hc]
    · simp [hlt]

/-- What a full page leaves: `o` is what the query would give without its limit. -/
structure FullPage (db : SessionDb) (f : Filter) (cursor : Option Int) (o : List SessionRow)
    (next : Int) : Prop where
  list : db.list f cursor = (o.take f.pageSize, some next)
  last : (o.map SessionRow.startedAt)[f.pageSize - 1]? = some next
  perm : o.Perm (db.before f cursor)
  sorted : o.Pairwise Newer
  full : f.pageSize < o.length
  le_cursor : ∀ c ∈ cursor, next ≤ c
  le_page : ∀ s ∈ o.take f.pageSize, next ≤ s.startedAt
  rest_le : ∀ s ∈ o.drop f.pageSize, s.startedAt ≤ next

theorem list_cases : let o := db.order (db.before f cursor)
    o.length ≤ f.pageSize ∧ db.list f cursor = (o, none) ∨ ∃ next, FullPage db f cursor o next := by
  intro o
  have hsize := f.pageSize_pos
  have hperm : o.Perm (db.before f cursor) := db.perm _
  have hsorted : o.Pairwise Newer := db.newestFirst _
  by_cases hfull : f.pageSize < o.length
  · refine .inr ?_
    have hlt : f.pageSize - 1 < o.length := by omega
    have htake : o.take f.pageSize = o.take (f.pageSize - 1) ++ [o[f.pageSize - 1]] := by
      rw [take_append_getElem hlt, Nat.sub_add_cancel hsize]
    have hmem : o[f.pageSize - 1] ∈ db.before f cursor := hperm.subset (getElem_mem hlt)
    have hsplit := hsorted
    rw [← take_append_drop f.pageSize o, htake, pairwise_append, pairwise_append] at hsplit
    obtain ⟨⟨-, -, hfront⟩, -, hback⟩ := hsplit
    refine ⟨o[f.pageSize - 1].startedAt, ?_, by simp [hlt], hperm, hsorted, hfull, ?_, ?_, ?_⟩
    · have hmin : min f.pageSize (f.pageSize + 1) = f.pageSize := by omega
      have hlong : f.pageSize < (o.take (f.pageSize + 1)).length := by
        rw [length_take]
        omega
      change (if _ < (o.take _).length then ((o.take _).take _, _) else _) = _
      rw [if_pos hlong, take_take, hmin, htake, getLast?_concat]
      rfl
    · rintro c rfl
      exact (mem_before_some hmem).le
    · rw [htake]
      exact forall_mem_append.mpr
        ⟨fun s hs => hfront s hs _ (mem_singleton_self _), forall_mem_singleton.mpr le_rfl⟩
    · exact fun s hs => hback _ (mem_append_right _ (mem_singleton_self _)) s hs
  · refine .inl ⟨not_lt.mp hfull, ?_⟩
    have htake : o.take (f.pageSize + 1) = o := take_of_length_le (by omega)
    change (if _ < (o.take _).length then _ else (o.take _, none)) = _
    rw [htake, if_neg hfull]

theorem FullPage.before_perm (h : FullPage db f cursor o next) :
    (db.before f (some next)).Perm ((o.drop f.pageSize).filter (·.startedAt < next)) := by
  have hpage : (o.take f.pageSize).filter (·.startedAt < next) = [] := by
    refine filter_eq_nil_iff.mpr fun s hs => ?_
    simpa using h.le_page s hs
  rw [before_some h.le_cursor]
  refine (h.perm.symm.filter _).trans ?_
  rw [← take_append_drop f.pageSize o, filter_append, hpage, nil_append, take_append_drop]

theorem mem_before_of_mem_follow (h : s ∈ db.follow f n cursor) : s ∈ db.before f cursor := by
  induction n generalizing cursor with
  | zero => cases h
  | succ n ih =>
    rcases list_cases with ⟨-, hlist⟩ | ⟨next, hpage⟩
    · rw [SessionDb.follow, hlist] at h
      exact (db.perm _).subset h
    · rw [SessionDb.follow, hpage.list] at h
      rcases mem_append.mp h with h | h
      · exact hpage.perm.subset (mem_of_mem_take h)
      · have := ih h
        rw [before_some hpage.le_cursor] at this
        exact (mem_filter.mp this).1

/-- Nothing is left out after a page whose end is no tie. -/
theorem FullPage.rest_perm (h : FullPage db f cursor o next)
    (hlt : ∀ s ∈ o.drop f.pageSize, s.startedAt ≠ next) :
    (db.before f (some next)).Perm (o.drop f.pageSize) := by
  have hall : (o.drop f.pageSize).filter (·.startedAt < next) = o.drop f.pageSize :=
    filter_eq_self.mpr fun s hs => decide_eq_true (lt_of_le_of_ne (h.rest_le s hs) (hlt s hs))
  exact hall ▸ h.before_perm

/-- The first session after the page started before its last one, and so all did. -/
theorem FullPage.ne_next (h : FullPage db f cursor o next)
    (hcut : (o.map SessionRow.startedAt)[f.pageSize - 1]? ≠
      (o.map SessionRow.startedAt)[f.pageSize]?) :
    ∀ s ∈ o.drop f.pageSize, s.startedAt ≠ next := by
  have hsorted := h.sorted.drop (i := f.pageSize)
  have hfull := h.full
  have hdrop := drop_eq_getElem_cons hfull
  have hfirst : o[f.pageSize].startedAt ≠ next := by
    rw [h.last, getElem?_map, getElem?_eq_getElem h.full] at hcut
    exact fun heq => hcut (congrArg some heq.symm)
  have hle := h.rest_le o[f.pageSize] (hdrop ▸ mem_cons_self)
  rw [hdrop] at hsorted ⊢
  refine forall_mem_cons.mpr ⟨hfirst, fun s hs => ?_⟩
  have : s.startedAt ≤ o[f.pageSize].startedAt := (pairwise_cons.mp hsorted).1 s hs
  omega

theorem FullPage.follow_eq (h : FullPage db f cursor o next) :
    db.follow f (n + 1) cursor = o.take f.pageSize ++ db.follow f n (some next) := by
  rw [SessionDb.follow, h.list]

/-- The requests left suffice for what is below the next cursor. -/
theorem FullPage.length_before_lt (h : FullPage db f cursor o next)
    (hn : (db.before f cursor).length < n + 1) : (db.before f (some next)).length < n := by
  have := h.before_perm.length_eq.trans_le (length_filter_le _ _)
  have := h.perm.length_eq
  have := f.pageSize_pos
  have := h.full
  rw [length_drop] at *
  omega

/-- What comes on later pages is no newer. -/
theorem FullPage.pairwise_append (h : FullPage db f cursor o next)
    (hsorted : (db.follow f n (some next)).Pairwise Newer) :
    (o.take f.pageSize ++ db.follow f n (some next)).Pairwise Newer := by
  refine List.pairwise_append.mpr ⟨h.sorted.take (i := f.pageSize), hsorted, fun a ha b hb => ?_⟩
  exact (mem_before_some (mem_before_of_mem_follow hb)).le.trans (h.le_page a ha)

/-- The sessions shown are all below the cursor, each once, newest first. -/
def Complete (db : SessionDb) (f : Filter) (cursor : Option Int) (shown : List SessionRow) : Prop :=
  shown.Perm (db.before f cursor) ∧ shown.Pairwise Newer

theorem complete_follow_iff (hn : (db.before f cursor).length < n) :
    Complete db f cursor (db.follow f n cursor) ↔
      Uncut f.pageSize ((db.order (db.before f cursor)).map SessionRow.startedAt) := by
  -- the requests left suffice for what is below the cursor
  induction n generalizing cursor with
  | zero => omega
  | succ n ih =>
    set o := db.order (db.before f cursor)
    rcases list_cases with ⟨hle, hlist⟩ | ⟨next, hpage⟩
    · rw [SessionDb.follow, hlist]
      exact iff_of_true ⟨db.perm _, db.newestFirst _⟩ (uncut_of_length_le (by simpa using hle))
    · have hrest := hpage.length_before_lt hn
      have htimes : (∀ s ∈ o.drop f.pageSize, s.startedAt ≠ next) →
          ((db.order (db.before f (some next))).map SessionRow.startedAt) =
            (o.map SessionRow.startedAt).drop f.pageSize := by
        intro hne
        rw [← map_drop]
        exact map_startedAt_eq ((db.perm _).trans (hpage.rest_perm hne)) (db.newestFirst _)
          (hpage.sorted.drop (i := f.pageSize))
      rw [hpage.follow_eq, uncut_iff_drop f.pageSize_pos (by simpa using hpage.full)]
      constructor
      · rintro ⟨hperm, hsorted⟩
        have hdrop : (db.follow f n (some next)).Perm (o.drop f.pageSize) := by
          refine (perm_append_left_iff (o.take f.pageSize)).mp (hperm.trans ?_)
          rw [take_append_drop]
          exact hpage.perm.symm
        -- what comes after a page started before its end
        have hne : ∀ s ∈ o.drop f.pageSize, s.startedAt ≠ next := fun s hs =>
          (mem_before_some (mem_before_of_mem_follow (hdrop.symm.subset hs))).ne
        refine ⟨fun heq => ?_, htimes hne ▸ (ih hrest).mp
          ⟨hdrop.trans (hpage.rest_perm hne).symm, (pairwise_append.mp hsorted).2.1⟩⟩
        rw [hpage.last, getElem?_map, getElem?_eq_getElem hpage.full] at heq
        exact hne _ (drop_eq_getElem_cons hpage.full ▸ mem_cons_self) (Option.some.inj heq).symm
      · rintro ⟨hcut, huncut⟩
        have hne := hpage.ne_next hcut
        obtain ⟨hperm, hsorted⟩ := (ih hrest).mpr (htimes hne ▸ huncut)
        constructor
        · refine ((hperm.trans (hpage.rest_perm hne)).append_left _).trans ?_
          rw [take_append_drop]
          exact hpage.perm
        · exact hpage.pairwise_append hsorted

/-- **Pages.** For every set of sessions, filter and page size, and whatever order the database
gives sessions that started at one time: following the cursor to the end shows every matching
session once, newest first, exactly when no page ends between two that started at one time. -/
theorem pages_complete_iff (db : SessionDb) (f : Filter) {n : Nat}
    (hn : (db.before f none).length < n) :
    Complete db f none (db.follow f n none) ↔
      Uncut f.pageSize ((db.order (db.before f none)).map SessionRow.startedAt) :=
  complete_follow_iff hn

/-- **What the pages show at least.** Over any number of requests no session comes twice and each
page goes on behind the one before; and when the requests suffice, of every time at which a matching
session started, one that started then is shown: only its equals in time can be missing. -/
theorem pages_show_every_time (db : SessionDb) (f : Filter) (n : Nat) (cursor : Option Int) :
    (db.follow f n cursor).Subperm (db.before f cursor) ∧
      (db.follow f n cursor).Pairwise Newer ∧
      ((db.before f cursor).length < n → ∀ s ∈ db.before f cursor,
        ∃ s' ∈ db.follow f n cursor, s'.startedAt = s.startedAt) := by
  induction n generalizing cursor with
  | zero => exact ⟨nil_subperm, .nil, nofun⟩
  | succ n ih =>
    rcases list_cases with ⟨-, hlist⟩ | ⟨next, hpage⟩
    · rw [SessionDb.follow, hlist]
      exact ⟨(db.perm _).subperm, db.newestFirst _, fun _ s hs =>
        ⟨s, (db.perm _).symm.subset hs, rfl⟩⟩
    · obtain ⟨hsub, hsorted, htimes⟩ := ih (some next)
      rw [hpage.follow_eq]
      refine ⟨?_, hpage.pairwise_append hsorted, fun hn s hs => ?_⟩
      · have hrest := hsub.trans (hpage.before_perm.subperm.trans filter_sublist.subperm)
        have := (subperm_append_left (db.order (db.before f cursor) |>.take f.pageSize)).mpr hrest
        rw [take_append_drop] at this
        exact this.trans hpage.perm.subperm
      · -- a session behind the page started before its last one, or with it
        have hmem := hpage.perm.symm.subset hs
        rw [← take_append_drop f.pageSize (db.order _)] at hmem
        rcases mem_append.mp hmem with htake | hdrop
        · exact ⟨s, mem_append_left _ htake, rfl⟩
        rcases (hpage.rest_le s hdrop).lt_or_eq with hlt | heq
        · have hbefore := hpage.before_perm.symm.subset (mem_filter.mpr ⟨hdrop, decide_eq_true hlt⟩)
          obtain ⟨s', hs', hstarted⟩ := htimes (hpage.length_before_lt hn) s hbefore
          exact ⟨s', mem_append_right _ hs', hstarted⟩
        · have hlast := hpage.last
          rw [getElem?_map, Option.map_eq_some_iff] at hlast
          obtain ⟨s', hs', hstarted⟩ := hlast
          have htake := getElem?_take_of_lt (l := db.order (db.before f cursor))
            (Nat.sub_one_lt_of_lt f.pageSize_pos)
          exact ⟨s', mem_append_left _ (mem_of_getElem? (htake.trans hs')), hstarted.trans heq.symm⟩

/-- Sessions of one user, by their start. -/
def sessionAt (id : String) (startedAt : Int) : SessionRow := ⟨id, "u", "u", "t", startedAt, none⟩

/-- A database that sorts its rows. -/
def sortingDb (rows : List SessionRow) : SessionDb where
  rows := rows
  search _ _ := true
  order := insertionSort Newer
  perm := perm_insertionSort Newer
  newestFirst := pairwise_insertionSort Newer

def onePerPage : Filter := { limit := 1 }

theorem two_pages_complete :
    Complete (sortingDb [sessionAt "a" 2, sessionAt "b" 1]) onePerPage none
      ((sortingDb [sessionAt "a" 2, sessionAt "b" 1]).follow onePerPage 3 none) := by
  refine (pages_complete_iff _ _ (by decide)).mpr fun k hk => ?_
  obtain rfl : k = 0 := by
    have : (k + 1) * 1 < 2 := hk
    omega
  decide +kernel

/-- Two sessions that started together, one on a page: the second is never shown. -/
theorem second_of_two_is_skipped :
    (sortingDb [sessionAt "a" 1, sessionAt "b" 1]).follow onePerPage 3 none = [sessionAt "a" 1] :=
  rfl

end Zanskar.Session
