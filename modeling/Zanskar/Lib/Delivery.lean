import Mathlib.Tactic

/-!
# Delivery at least once

A receiver is sent stretches of a log, some of them more than once. `InOrder log accepted` says
that what it has accepted, repetitions removed, is a front of the log: in order, with nothing
missing. It is kept when the log grows at its end, and when a stretch is accepted behind which
everything was accepted before (`InOrder.deliver`).
-/

namespace Zanskar.Lib

open List

variable {α : Type*} [DecidableEq α] {accepted l : List α}

/-- The first occurrences of what was accepted are a front of the log. -/
def InOrder (log accepted : List α) : Prop := accepted.eraseDups <+: log

theorem eraseDups_of_nodup (h : l.Nodup) : l.eraseDups = l := by
  induction l with
  | nil => rfl
  | cons a l ih =>
    obtain ⟨hnot, hl⟩ := nodup_cons.mp h
    have hfilter : l.filter (fun b => !b == a) = l := by
      refine filter_eq_self.mpr fun b hb => ?_
      have hne : b ≠ a := fun hsame => hnot (hsame ▸ hb)
      simpa using hne
    rw [eraseDups_cons, hfilter, ih hl]

theorem removeAll_eq_nil (h : ∀ a ∈ l, a ∈ accepted) : l.removeAll accepted = [] := by
  refine filter_eq_nil_iff.mpr fun a ha => ?_
  simpa using h a ha

theorem removeAll_eq_self (h : ∀ a ∈ l, a ∉ accepted) : l.removeAll accepted = l := by
  refine filter_eq_self.mpr fun a ha => ?_
  simpa using h a ha

theorem removeAll_append (l' : List α) :
    (l ++ l').removeAll accepted = l.removeAll accepted ++ l'.removeAll accepted :=
  filter_append _ _

namespace InOrder

variable {log accepted before page rest : List α}

theorem nil (log : List α) : InOrder log [] := nil_prefix

theorem grow (h : InOrder log accepted) (more : List α) : InOrder (log ++ more) accepted :=
  h.trans (prefix_append _ _)

/-- **Delivery.** A stretch of the log is accepted, and everything in front of it was. -/
theorem deliver (hnodup : (before ++ page ++ rest).Nodup)
    (h : InOrder (before ++ page ++ rest) accepted) (hbefore : ∀ a ∈ before, a ∈ accepted) :
    InOrder (before ++ page ++ rest) (accepted ++ page) := by
  unfold InOrder at h ⊢
  rw [eraseDups_append]
  rcases prefix_or_prefix_of_prefix h (prefix_append (before ++ page) rest) with
    hshort | hlong
  · -- new events: the stretch goes beyond what was accepted
    obtain ⟨new, hnew⟩ := hshort
    have hsplit : (accepted.eraseDups ++ new).Nodup := by
      rw [hnew]
      exact (nodup_append.mp hnodup).1
    have hfresh : ∀ a ∈ new, a ∉ accepted := by
      intro a ha hmem
      exact (nodup_append.mp hsplit).2.2 a (mem_eraseDups.mpr hmem) a ha rfl
    have hpage : page.removeAll accepted = new := by
      have hboth : (before ++ page).removeAll accepted = new := by
        rw [← hnew, removeAll_append, removeAll_eq_nil fun a ha => mem_eraseDups.mp ha,
          removeAll_eq_self hfresh, nil_append]
      rwa [removeAll_append, removeAll_eq_nil hbefore, nil_append] at hboth
    rw [hpage, eraseDups_of_nodup (nodup_append.mp hsplit).2.1, hnew]
    exact prefix_append _ _
  · -- the stretch was accepted before
    have hpage : page.removeAll accepted = [] := by
      refine removeAll_eq_nil fun a ha => mem_eraseDups.mp (hlong.subset ?_)
      exact mem_append_right _ ha
    rw [hpage]
    simpa using h

/-- Once everything was accepted, the first occurrences are the log. -/
theorem eq_of_all (h : InOrder log accepted) (hnodup : log.Nodup)
    (hall : ∀ a ∈ log, a ∈ accepted) : accepted.eraseDups = log := by
  obtain ⟨rest, hrest⟩ := h
  cases rest with
  | nil => rwa [append_nil] at hrest
  | cons a rest =>
    have hmem : a ∈ accepted.eraseDups := mem_eraseDups.mpr (hall a (by simp [← hrest]))
    rw [← hrest] at hnodup
    exact absurd rfl ((nodup_append.mp hnodup).2.2 a hmem a mem_cons_self)

end InOrder

end Zanskar.Lib
