import Zanskar.Go.Utf8

/-!
# Reading a stream (`io`)

A reader is the list of what its `Read`s hand over, so a stream comes in any way it
may be split. `io.ReadFull` reads on until it has what was asked for; what it returns
depends on the stream alone, and not on the split (`readFull_of_flatten`).
-/

namespace Zanskar.Go

open List

/-- `io.ReadFull` for `n` bytes: the bytes and the reads that are left, or `none` where
the stream ends before. -/
def readFull : Nat → List Bytes → Option (Bytes × List Bytes)
  | 0, chunks => some ([], chunks)
  | _ + 1, [] => none
  | n + 1, c :: chunks =>
    if n + 1 ≤ c.length then some (c.take (n + 1), c.drop (n + 1) :: chunks)
    else (readFull (n + 1 - c.length) chunks).map fun (d, rest) => (c ++ d, rest)

variable {chunks : List Bytes}

/-- The front of a stream is read whole, however it is split. -/
theorem readFull_of_flatten {d rest : Bytes} (h : chunks.flatten = d ++ rest) :
    ∃ chunks', readFull d.length chunks = some (d, chunks') ∧ chunks'.flatten = rest := by
  induction chunks generalizing d with
  | nil =>
    obtain ⟨rfl, rfl⟩ := append_eq_nil_iff.mp h.symm
    exact ⟨[], rfl, rfl⟩
  | cons c chunks ih =>
    cases d with
    | nil => exact ⟨c :: chunks, rfl, h⟩
    | cons b d =>
      rw [length_cons, readFull]
      rw [flatten_cons] at h
      split
      · -- the first read holds it all
        rename_i hle
        have hle' : (b :: d).length ≤ c.length := hle
        have htake : c.take (d.length + 1) = b :: d := by
          have := congrArg (take (b :: d).length) h
          rwa [take_append_of_le_length hle', take_left] at this
        have hdrop : c.drop (d.length + 1) ++ chunks.flatten = rest := by
          have := congrArg (drop (b :: d).length) h
          rwa [drop_append_of_le_length hle', drop_left] at this
        exact ⟨c.drop (d.length + 1) :: chunks, by rw [htake], hdrop⟩
      · rename_i hlt
        have hle : c.length ≤ (b :: d).length := by
          rw [length_cons]
          omega
        have hc : (b :: d).take c.length = c := by
          have := congrArg (take c.length) h
          rwa [take_left, take_append_of_le_length hle, eq_comm] at this
        have hrest : chunks.flatten = (b :: d).drop c.length ++ rest := by
          have := congrArg (drop c.length) h
          rwa [drop_left, drop_append_of_le_length hle] at this
        obtain ⟨chunks', hread, hflat⟩ := ih hrest
        have hlen : ((b :: d).drop c.length).length = d.length + 1 - c.length := by
          rw [length_drop, length_cons]
        rw [hlen] at hread
        refine ⟨chunks', ?_, hflat⟩
        rw [hread, Option.map_some]
        conv_rhs => rw [← take_append_drop c.length (b :: d), hc]

/-- What is read is as long as was asked for, and the front of the stream. -/
theorem of_readFull {n : Nat} {d : Bytes} {rest : List Bytes}
    (h : readFull n chunks = some (d, rest)) :
    d.length = n ∧ chunks.flatten = d ++ rest.flatten := by
  fun_induction readFull n chunks generalizing d with
  | case1 chunks =>
    cases h
    exact ⟨rfl, rfl⟩
  | case2 => cases h
  | case3 n c chunks hle =>
    cases h
    refine ⟨length_take_of_le hle, ?_⟩
    rw [flatten_cons, flatten_cons, ← append_assoc, take_append_drop]
  | case4 n c chunks hlt ih =>
    obtain ⟨⟨d', rest'⟩, hread, heq⟩ := Option.map_eq_some_iff.mp h
    cases heq
    obtain ⟨hlen, hflat⟩ := ih hread
    rw [length_append, hlen, flatten_cons, hflat, append_assoc]
    exact ⟨by omega, rfl⟩

end Zanskar.Go
