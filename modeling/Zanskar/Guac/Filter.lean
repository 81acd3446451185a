import Mathlib.Data.Bool.AllAny
import Zanskar.Guac.Protocol

/-!
# The stream filter of the desktop bridge (`internal/gateway/guac/bridge.go`)

Guacamole moves clipboard text and files as streams: an opening instruction names a
stream index, and the data follows as `blob` instructions and an `end` for that
index. The filter judges raw instructions. It takes the opcode and the index off the
raw text, by counting for the opcode and by walking the first elements for the index,
and remembers the indexes it refused.

- `filter_keeps_policy` : what passes and what is dropped, over any run;
- `streams_pass_whole` : of a stream everything goes on to the other side, or nothing.
-/

namespace Zanskar.Guac

open Go List

/-! ## Reading a raw instruction -/

/-- `Opcode`: the opcode without a full parse. It counts bytes where `Parse` counts
runes. -/
def opcode (raw : Bytes) : Bytes :=
  match raw.findIdx? (· = ascii '.') with
  | none => []
  | some dot =>
    match atoi (raw.take dot) with
    | none => []
    | some n =>
      if n < 0 ∨ raw.length < dot + 1 + n.toNat then []
      else (raw.drop (dot + 1)).take n.toNat

/-- `element`: the `i`-th element (0 is the opcode) without parsing past it. One pass
reads an element as `Parse` does and looks at the delimiter behind it. -/
def element (rest : Bytes) : Nat → Option Bytes
  | 0 =>
    match readElem rest with
    | some (value, sep :: _) =>
      if sep ≠ ascii ',' ∧ sep ≠ ascii ';' then none else some value
    | _ => none
  | i + 1 =>
    match readElem rest with
    | some (_, sep :: rest) => if sep ≠ ascii ',' then none else element rest i
    | _ => none

/-- The bound of the stream indexes the bridge keeps track of. -/
def maxStreams : Nat := 1024

/-- A stream index: the plain decimal of a number below the bound. -/
def plainIndex (s : Bytes) : Option Nat := do
  let n ← atoi s
  if n < 0 ∨ (maxStreams : Int) ≤ n ∨ itoa n.toNat ≠ s then none else some n.toNat

/-- `streamIndex`: the stream index at argument position `arg`. -/
def streamIndex (raw : Bytes) (arg : Nat) : Option Nat :=
  (element raw (arg + 1)).bind plainIndex

/-! ## The filter -/

/-- The switches of a session's limits that the filter reads. -/
structure Limits where
  allowClipboard : Bool
  allowFileTransfer : Bool
  deriving DecidableEq

/-- The opcodes of file transfer. -/
def fileOpcodes : List Bytes :=
  [lit "file", lit "pipe", lit "filesystem", lit "body", lit "undefine", lit "get", lit "put"]

/-- `Limits.allows`. -/
def Limits.allows (lim : Limits) (op : Bytes) : Bool :=
  if op = lit "clipboard" then lim.allowClipboard
  else if op ∈ fileOpcodes then lim.allowFileTransfer
  else true

/-- The direction of a relay, by the side that sends. -/
inductive Sender where
  | server
  | client
  deriving DecidableEq

/-- `serverOpens` and `clientOpens`: the opcodes that open a stream, with the argument
that carries its index. -/
def Sender.opens : Sender → List (Bytes × Nat)
  | .server => [(lit "audio", 0), (lit "argv", 0), (lit "clipboard", 0), (lit "file", 0),
      (lit "img", 0), (lit "pipe", 0), (lit "video", 0), (lit "body", 1)]
  | .client => [(lit "audio", 0), (lit "argv", 0), (lit "clipboard", 0), (lit "file", 0),
      (lit "pipe", 0), (lit "put", 1)]

/-- `streamFilter`: the table of its direction and the indexes it refused. -/
structure StreamFilter where
  opens : List (Bytes × Nat)
  blocked : Finset Nat

/-- `newStreamFilter`. -/
def newStreamFilter (opens : List (Bytes × Nat)) : StreamFilter := ⟨opens, ∅⟩

/-- `streamFilter.check`: the filter after it, whether the instruction passes, and the
index of a stream whose opening was just refused by policy. -/
def StreamFilter.check (f : StreamFilter) (raw op : Bytes) (lim : Limits) :
    StreamFilter × Bool × Option Nat :=
  if op = lit "blob" ∨ op = lit "end" then
    match streamIndex raw 0 with
    | none => (f, false, none)
    | some idx =>
      if idx ∉ f.blocked then (f, true, none)
      else if op = lit "end" then ({ f with blocked := f.blocked.erase idx }, false, none)
      else (f, false, none)
  else
    match f.opens.lookup op with
    | none => (f, lim.allows op, none)
    | some arg =>
      match streamIndex raw arg with
      | none => (f, false, none)
      | some idx =>
        -- the index is in use again, so whatever it referred to before is over
        let f := { f with blocked := f.blocked.erase idx }
        if lim.allows op then (f, true, none)
        else ({ f with blocked := insert idx f.blocked }, false, some idx)

/-- The bridge's use of the filter on a raw instruction. -/
def StreamFilter.relay (f : StreamFilter) (lim : Limits) (raw : Bytes) :
    StreamFilter × Bool × Option Nat :=
  f.check raw (opcode raw) lim

/-! ## Raw and parsed instructions -/

/-- An instruction the bridge has parsed: its text and what `Parse` made of it. -/
structure Parsed where
  raw : Bytes
  ins : Instruction
  accepted : parse raw = .ok ins

/-- The stream index at an argument position of an instruction. -/
def Instruction.index (ins : Instruction) (arg : Nat) : Option Nat :=
  (ins.args[arg]?).bind plainIndex

variable {w : Bytes} {ins : Instruction} {blocked : Finset Nat} {sender : Sender} {idx : Nat}
  {m : Parsed} {lim : Limits} {seen between : List Parsed}

theorem runeCount_ascii_append (hw : ∀ b ∈ w, b.toNat < 0x80) (s : Bytes) :
    runeCount (w ++ s) = w.length + runeCount s := by
  induction w with
  | nil => simp
  | cons b w ih =>
    have hdec : decodeRune (b :: (w ++ s)) = (b.toNat, 1) := by
      simp [decodeRune, hw b mem_cons_self]
    have hrest := ih fun c hc => hw c (mem_cons_of_mem b hc)
    rw [runeCount] at hrest
    rw [cons_append, runeCount, runes_cons, hdec, length_cons, length_cons,
      drop_one, tail_cons, hrest]
    omega

/-- `Opcode` takes as many bytes of the opcode as it has runes. -/
theorem opcode_eq_take : opcode m.raw = m.ins.opcode.take (runeCount m.ins.opcode) := by
  obtain ⟨raw, ins, hparse⟩ := m
  obtain ⟨e, es, t, -, rfl, rfl⟩ := (parse_ok_iff raw ins).mp hparse
  dsimp only
  have hle := runeCount_le e.value
  have hdrop : (spell e es (t ++ [ascii ';'])).drop (e.size.length + 1) =
      e.value ++ behind es (t ++ [ascii ';']) := by
    rw [spell, ← drop_drop, drop_left]
    rfl
  have htake : (spell e es (t ++ [ascii ';'])).take e.size.length = e.size := by
    rw [spell, take_left]
  have hfind : (spell e es (t ++ [ascii ';'])).findIdx? (· = ascii '.') = some e.size.length :=
    findIdx?_dot (dot_notMem_of_atoi e.measured)
  have hlen : ¬((runeCount e.value : Int) < 0 ∨ (spell e es (t ++ [ascii ';'])).length <
      e.size.length + 1 + (runeCount e.value : Int).toNat) := by
    simp only [spell, length_append, length_cons, Int.toNat_natCast]
    omega
  rw [opcode, hfind]
  dsimp only
  rw [htake, e.measured]
  dsimp only
  rw [if_neg hlen, hdrop, Int.toNat_natCast, take_append_of_le_length hle]

theorem opcode_eq_iff_runeCount :
    opcode m.raw = m.ins.opcode ↔ runeCount m.ins.opcode = m.ins.opcode.length := by
  rw [opcode_eq_take, take_eq_self_iff]
  have := runeCount_le m.ins.opcode
  omega

/-- A word of ASCII is the opcode by counting bytes just when it is by counting
runes. -/
theorem opcode_eq_iff (m : Parsed) (hw : ∀ b ∈ w, b.toNat < 0x80) :
    opcode m.raw = w ↔ m.ins.opcode = w := by
  rw [opcode_eq_take]
  have hcount : runeCount w = w.length := by
    have := runeCount_ascii_append hw []
    rwa [append_nil] at this
  constructor
  · intro h
    obtain ⟨n, hn⟩ : ∃ n, runeCount m.ins.opcode = n := ⟨_, rfl⟩
    have hsplit : m.ins.opcode = w ++ m.ins.opcode.drop n := by
      rw [← h, hn, take_append_drop]
    have hlen : w.length = n := by
      rw [← h, hn, length_take]
      have := runeCount_le m.ins.opcode
      omega
    -- the word holds all runes of the opcode, so nothing is behind it
    have hrest : runeCount (m.ins.opcode.drop n) = 0 := by
      have := runeCount_ascii_append hw (m.ins.opcode.drop n)
      rw [← hsplit] at this
      omega
    have hnil : m.ins.opcode.drop n = [] := by
      cases hd : m.ins.opcode.drop n with
      | nil => rfl
      | cons b s =>
        rw [hd, runeCount, runes_cons] at hrest
        cases hrest
    rw [hsplit, hnil, append_nil]
  · intro h
    rw [h, hcount, take_length]

/-- `element` walks to the elements `Parse` reads. -/
theorem element_spell (e : Elem) (es : List Elem) {t : Bytes} (ht : Closing t) (i : Nat) :
    element (spell e es (t ++ [ascii ';'])) i = ((e :: es).map Elem.value)[i]? := by
  have hapart := apart_append_closing ht
  have hread : ∀ (e : Elem) (es : List Elem), readElem (spell e es (t ++ [ascii ';'])) =
      some (e.value, behind es (t ++ [ascii ';'])) :=
    fun e es => readElem_spelled e (apart_behind es hapart)
  induction i generalizing e es with
  | zero =>
    rw [element, hread]
    rcases es with _ | ⟨e', es⟩
    · rcases ht with rfl | rfl <;> rfl
    · rfl
  | succ i ih =>
    rw [element, hread]
    rcases es with _ | ⟨e', es⟩
    · -- behind the last element stands the end, or a comma and the end
      rcases ht with rfl | rfl
      · rfl
      · cases i <;> rfl
    · exact ih e' es

theorem streamIndex_eq (arg : Nat) : streamIndex m.raw arg = m.ins.index arg := by
  obtain ⟨raw, ins, hparse⟩ := m
  obtain ⟨e, es, t, ht, rfl, rfl⟩ := (parse_ok_iff raw ins).mp hparse
  rw [streamIndex, element_spell e es ht]
  rfl

/-- **The short ways and `Parse`.** `element` returns what `Parse` reads at each position, and
`Opcode` the opcode `Parse` reads, exactly if that has as many runes as bytes. -/
theorem accessors_agree_iff (m : Parsed) :
    (opcode m.raw = m.ins.opcode ∧ ∀ i, element m.raw i = (m.ins.opcode :: m.ins.args)[i]?) ↔
      runeCount m.ins.opcode = m.ins.opcode.length := by
  rw [opcode_eq_iff_runeCount, and_iff_left]
  obtain ⟨raw, ins, hparse⟩ := m
  obtain ⟨e, es, t, ht, rfl, rfl⟩ := (parse_ok_iff raw ins).mp hparse
  exact element_spell e es ht

/-- An opcode of one rune and two bytes: `Opcode` cuts it in half. -/
theorem accented_opcode_is_cut :
    parse (lit "1." ++ [0xC3, 0xA9] ++ lit ";") = .ok ⟨[0xC3, 0xA9], []⟩ ∧
      opcode (lit "1." ++ [0xC3, 0xA9] ++ lit ";") = [0xC3] :=
  ⟨by decide +kernel, by decide +kernel⟩

/-! ## One instruction -/

theorem opcode_mem_iff {ws : List Bytes} (hws : ∀ w ∈ ws, ∀ b ∈ w, b.toNat < 0x80) :
    opcode m.raw ∈ ws ↔ m.ins.opcode ∈ ws := by
  induction ws with
  | nil => simp
  | cons w ws ih =>
    rw [mem_cons, mem_cons, opcode_eq_iff m (hws w mem_cons_self),
      ih fun v hv => hws v (mem_cons_of_mem w hv)]

theorem allows_opcode : lim.allows (opcode m.raw) = lim.allows m.ins.opcode := by
  have hclipboard := opcode_eq_iff m (w := lit "clipboard")
    (all_iff_forall_prop.mp (by decide +kernel))
  have hascii : (fileOpcodes.all fun w => w.all (·.toNat < 0x80)) := by decide +kernel
  have hfile : opcode m.raw ∈ fileOpcodes ↔ m.ins.opcode ∈ fileOpcodes :=
    opcode_mem_iff fun w hw => all_iff_forall_prop.mp (all_eq_true.mp hascii w hw)
  simp [Limits.allows, hclipboard, hfile]

theorem lookup_opcode : sender.opens.lookup (opcode m.raw) = sender.opens.lookup m.ins.opcode := by
  have hkeys : ∀ kv ∈ sender.opens, ∀ b ∈ kv.1, b.toNat < 0x80 := by
    have hall : (sender.opens.all fun kv => kv.1.all (·.toNat < 0x80)) := by
      cases sender <;> decide +kernel
    exact fun kv hkv => all_iff_forall_prop.mp (all_eq_true.mp hall kv hkv)
  generalize sender.opens = table at hkeys ⊢
  induction table with
  | nil => rfl
  | cons kv kvs ih =>
    have hkey := opcode_eq_iff m (hkeys kv mem_cons_self)
    have hrest := ih fun kv' h => hkeys kv' (mem_cons_of_mem kv h)
    rw [lookup_cons, lookup_cons, hrest]
    by_cases hop : m.ins.opcode = kv.1
    · rw [beq_iff_eq.mpr hop, beq_iff_eq.mpr (hkey.mpr hop)]
    · rw [beq_eq_false_iff_ne.mpr hop, beq_eq_false_iff_ne.mpr fun h => hop (hkey.mp h)]

/-- The stream an instruction opens. -/
def Instruction.opened (ins : Instruction) (sender : Sender) : Option Nat :=
  (sender.opens.lookup ins.opcode).bind ins.index

/-- The stream an instruction carries data or the end of. -/
def Instruction.carried (ins : Instruction) : Option Nat :=
  if ins.opcode = lit "blob" ∨ ins.opcode = lit "end" then ins.index 0 else none

/-- The stream an instruction ends. -/
def Instruction.ended (ins : Instruction) : Option Nat :=
  if ins.opcode = lit "end" then ins.index 0 else none

/-- The filter judges a parsed instruction by what `Parse` read. -/
theorem relay_eq :
    (⟨sender.opens, blocked⟩ : StreamFilter).relay lim m.raw =
      if m.ins.opcode = lit "blob" ∨ m.ins.opcode = lit "end" then
        match m.ins.index 0 with
        | none => (⟨sender.opens, blocked⟩, false, none)
        | some idx =>
          if idx ∉ blocked then (⟨sender.opens, blocked⟩, true, none)
          else if m.ins.opcode = lit "end" then
            (⟨sender.opens, blocked.erase idx⟩, false, none)
          else (⟨sender.opens, blocked⟩, false, none)
      else
        match sender.opens.lookup m.ins.opcode with
        | none => (⟨sender.opens, blocked⟩, lim.allows m.ins.opcode, none)
        | some arg =>
          match m.ins.index arg with
          | none => (⟨sender.opens, blocked⟩, false, none)
          | some idx =>
            if lim.allows m.ins.opcode then (⟨sender.opens, blocked.erase idx⟩, true, none)
            else (⟨sender.opens, insert idx (blocked.erase idx)⟩, false, some idx) := by
  have hblob := opcode_eq_iff m (w := lit "blob") (all_iff_forall_prop.mp (by decide +kernel))
  have hend := opcode_eq_iff m (w := lit "end") (all_iff_forall_prop.mp (by decide +kernel))
  simp only [StreamFilter.relay, StreamFilter.check, hblob, hend, lookup_opcode, allows_opcode,
    streamIndex_eq]

theorem opened_of_carries (h : ins.opcode = lit "blob" ∨ ins.opcode = lit "end") :
    ins.opened sender = none := by
  have hnone : ∀ sender : Sender, sender.opens.lookup (lit "blob") = none ∧
      sender.opens.lookup (lit "end") = none := by
    intro sender
    cases sender <;> decide
  rcases h with h | h
  · rw [Instruction.opened, h, (hnone sender).1]
    rfl
  · rw [Instruction.opened, h, (hnone sender).2]
    rfl

theorem ended_of_not_carries
    (h : ¬(ins.opcode = lit "blob" ∨ ins.opcode = lit "end")) : ins.ended = none := by
  rw [Instruction.ended, if_neg fun hend => h (.inr hend)]

theorem relay_opens :
    ((⟨sender.opens, blocked⟩ : StreamFilter).relay lim m.raw).1.opens = sender.opens := by
  rw [relay_eq]
  repeat' split
  all_goals rfl

/-- **What one instruction does to one index.** The opening of its stream settles
whether it is blocked, and its end frees it. -/
theorem mem_blocked_relay :
    idx ∈ ((⟨sender.opens, blocked⟩ : StreamFilter).relay lim m.raw).1.blocked ↔
      if m.ins.opened sender = some idx then lim.allows m.ins.opcode = false
      else idx ∈ blocked ∧ m.ins.ended ≠ some idx := by
  rw [relay_eq]
  by_cases hcarries : m.ins.opcode = lit "blob" ∨ m.ins.opcode = lit "end"
  · rw [if_pos hcarries, opened_of_carries hcarries, if_neg (by simp), Instruction.ended]
    cases hidx : m.ins.index 0 with
    | none => simp
    | some k =>
      by_cases hk : k ∈ blocked
      · by_cases hend : m.ins.opcode = lit "end"
        · simp [hk, hend, and_comm, eq_comm]
        · simp [hk, hend]
      · have hne : idx ∈ blocked → k ≠ idx := fun hmem heq => hk (heq ▸ hmem)
        by_cases hend : m.ins.opcode = lit "end"
        · simpa [hk, hend] using hne
        · simp [hk, hend]
  · rw [if_neg hcarries, ended_of_not_carries hcarries, Instruction.opened]
    cases hopens : sender.opens.lookup m.ins.opcode with
    | none => simp
    | some arg =>
      cases hidx : m.ins.index arg with
      | none => simp [hidx]
      | some k =>
        by_cases hk : k = idx
        · subst hk
          by_cases hallow : lim.allows m.ins.opcode
          · simp [hidx, hallow]
          · simp [hidx, hallow]
        · have hk' : idx ≠ k := fun h => hk h.symm
          by_cases hallow : lim.allows m.ins.opcode
          · simp [hidx, hallow, hk, hk']
          · simp [hidx, hallow, hk, hk']

theorem relay_carried (h : m.ins.carried = some idx) :
    ((⟨sender.opens, blocked⟩ : StreamFilter).relay lim m.raw).2.1 = decide (idx ∉ blocked) := by
  rw [Instruction.carried] at h
  split at h
  · rename_i hcarries
    rw [relay_eq, if_pos hcarries, h]
    dsimp only
    by_cases hidx : idx ∈ blocked
    · by_cases hend : m.ins.opcode = lit "end" <;> simp [hidx, hend]
    · simp [hidx]
  · cases h

theorem relay_opened (h : m.ins.opened sender = some idx) :
    ((⟨sender.opens, blocked⟩ : StreamFilter).relay lim m.raw).2.1 =
      lim.allows m.ins.opcode := by
  have hcarries : ¬(m.ins.opcode = lit "blob" ∨ m.ins.opcode = lit "end") := by
    intro hcarries
    rw [opened_of_carries hcarries] at h
    cases h
  obtain ⟨arg, harg, hidx⟩ := Option.bind_eq_some_iff.mp h
  rw [relay_eq, if_neg hcarries, harg]
  dsimp only
  rw [hidx]
  cases lim.allows m.ins.opcode <;> rfl

theorem allows_of_relay
    (h : ((⟨sender.opens, blocked⟩ : StreamFilter).relay lim m.raw).2.1) :
    lim.allows m.ins.opcode := by
  by_cases hcarries : m.ins.opcode = lit "blob" ∨ m.ins.opcode = lit "end"
  · -- the policy has no say in data
    rcases hcarries with hop | hop
    · rw [hop]
      rfl
    · rw [hop]
      rfl
  · rw [relay_eq, if_neg hcarries] at h
    split at h
    · exact h
    split at h
    · cases h
    split at h
    · assumption
    · cases h

/-! ## A run of instructions -/

/-- The filter of a direction after some instructions. -/
def filterAfter (sender : Sender) (lim : Limits) (seen : List Parsed) : StreamFilter :=
  seen.foldl (fun f m => (f.relay lim m.raw).1) (newStreamFilter sender.opens)

/-- Whether an instruction passes when it comes after others. -/
def passes (sender : Sender) (lim : Limits) (seen : List Parsed) (m : Parsed) : Bool :=
  ((filterAfter sender lim seen).relay lim m.raw).2.1

theorem filterAfter_snoc :
    filterAfter sender lim (seen ++ [m]) =
      ((filterAfter sender lim seen).relay lim m.raw).1 := by
  rw [filterAfter, foldl_append]
  rfl

theorem filterAfter_eq :
    filterAfter sender lim seen = ⟨sender.opens, (filterAfter sender lim seen).blocked⟩ := by
  have hopens : (filterAfter sender lim seen).opens = sender.opens := by
    induction seen using reverseRecOn with
    | nil => rfl
    | append_singleton seen m ih =>
      rw [filterAfter_snoc]
      generalize filterAfter sender lim seen = f at ih ⊢
      obtain ⟨opens, blocked⟩ := f
      obtain rfl : opens = sender.opens := ih
      exact relay_opens
  rw [← hopens]

theorem mem_blocked_snoc :
    idx ∈ (filterAfter sender lim (seen ++ [m])).blocked ↔
      if m.ins.opened sender = some idx then lim.allows m.ins.opcode = false
      else idx ∈ (filterAfter sender lim seen).blocked ∧ m.ins.ended ≠ some idx := by
  rw [filterAfter_snoc, filterAfter_eq]
  exact mem_blocked_relay

/-- A stream that is not opened anew is refused when its opening was, until it is ended. -/
theorem mem_blocked_since {opening : Parsed} (hopens : opening.ins.opened sender = some idx)
    (hbetween : ∀ m ∈ between, m.ins.opened sender ≠ some idx) :
    idx ∈ (filterAfter sender lim (seen ++ opening :: between)).blocked ↔
      lim.allows opening.ins.opcode = false ∧ ∀ m ∈ between, m.ins.ended ≠ some idx := by
  induction between using reverseRecOn with
  | nil =>
    rw [mem_blocked_snoc, if_pos hopens]
    simp
  | append_singleton between m ih =>
    obtain ⟨hearlier, hlast⟩ := forall_mem_append.mp hbetween
    rw [← cons_append, ← append_assoc, mem_blocked_snoc, if_neg (hlast m mem_cons_self),
      ih hearlier, forall_mem_append, forall_mem_singleton, and_assoc]

theorem passes_carried (h : m.ins.carried = some idx) :
    passes sender lim seen m = decide (idx ∉ (filterAfter sender lim seen).blocked) := by
  rw [passes, filterAfter_eq]
  exact relay_carried h

theorem passes_opened (h : m.ins.opened sender = some idx) :
    passes sender lim seen m = lim.allows m.ins.opcode := by
  rw [passes, filterAfter_eq]
  exact relay_opened h

/-- **The filter keeps the policy.** Through any run of parsed instructions in one
direction: an opcode the policy refuses never passes; once the opening of a stream was
refused, no data and no end of it passes until it is ended or opened anew; and no data
and no end of a stream whose latest opening passed is dropped. -/
theorem filter_keeps_policy (sender : Sender) (lim : Limits) :
    (∀ seen m, lim.allows m.ins.opcode = false → passes sender lim seen m = false) ∧
    (∀ before opening between m idx, opening.ins.opened sender = some idx →
      passes sender lim before opening = false →
      (∀ m' ∈ between, m'.ins.opened sender ≠ some idx ∧ m'.ins.ended ≠ some idx) →
      m.ins.carried = some idx →
      passes sender lim (before ++ opening :: between) m = false) ∧
    (∀ before opening between m idx, opening.ins.opened sender = some idx →
      passes sender lim before opening = true →
      (∀ m' ∈ between, m'.ins.opened sender ≠ some idx) →
      m.ins.carried = some idx →
      passes sender lim (before ++ opening :: between) m = true) := by
  refine ⟨?_, ?_, ?_⟩
  · intro seen m hrefused
    by_contra hpass
    rw [Bool.not_eq_false, passes, filterAfter_eq] at hpass
    rw [allows_of_relay hpass] at hrefused
    cases hrefused
  · intro before opening between m idx hopens hrefused hbetween hcarried
    rw [passes_opened hopens] at hrefused
    rw [passes_carried hcarried, decide_eq_false_iff_not, not_not,
      mem_blocked_since hopens fun m' h' => (hbetween m' h').1]
    exact ⟨hrefused, fun m' h' => (hbetween m' h').2⟩
  · intro before opening between m idx hopens hpassed hbetween hcarried
    rw [passes_opened hopens] at hpassed
    rw [passes_carried hcarried, decide_eq_true_iff, mem_blocked_since hopens hbetween, hpassed]
    exact fun h => absurd h.1 (by decide)

/-- A clipboard stream from the browser that the policy refuses, then a file stream of
the same index that it allows. -/
theorem clipboard_then_file_stream :
    ∃ clipboard file blob : Parsed,
      clipboard.raw = lit "9.clipboard,1.0,10.text/plain;" ∧
      file.raw = lit "4.file,1.0,10.text/plain,1.f;" ∧
      blob.raw = lit "4.blob,1.0,4.YWJj;" ∧
      passes .client ⟨false, true⟩ [clipboard] blob = false ∧
      passes .client ⟨false, true⟩ [clipboard, file] blob = true := by
  have hclipboard : parse (lit "9.clipboard,1.0,10.text/plain;") =
      .ok ⟨lit "clipboard", [lit "0", lit "text/plain"]⟩ := by decide +kernel
  have hfile : parse (lit "4.file,1.0,10.text/plain,1.f;") =
      .ok ⟨lit "file", [lit "0", lit "text/plain", lit "f"]⟩ := by decide +kernel
  have hblob : parse (lit "4.blob,1.0,4.YWJj;") = .ok ⟨lit "blob", [lit "0", lit "YWJj"]⟩ := by
    decide +kernel
  obtain ⟨-, hrefused, hpassed⟩ := filter_keeps_policy .client ⟨false, true⟩
  refine ⟨⟨_, _, hclipboard⟩, ⟨_, _, hfile⟩, ⟨_, _, hblob⟩, rfl, rfl, rfl, ?_, ?_⟩
  · exact hrefused [] ⟨_, _, hclipboard⟩ [] _ 0 rfl (passes_opened rfl) (by simp) rfl
  · exact hpassed [⟨_, _, hclipboard⟩] ⟨_, _, hfile⟩ [] _ 0 rfl (passes_opened rfl) (by simp) rfl

/-! ## What goes on to the other side -/

/-- The messages a filter lets through, of those that come. -/
def StreamFilter.relayed (lim : Limits) : StreamFilter → List Parsed → List Parsed
  | _, [] => []
  | f, m :: ms =>
    let r := f.relay lim m.raw
    if r.2.1 then m :: r.1.relayed lim ms else r.1.relayed lim ms

/-- The messages of one direction that go on to the other side. -/
def relayed (sender : Sender) (lim : Limits) (ms : List Parsed) : List Parsed :=
  (newStreamFilter sender.opens).relayed lim ms

theorem relayed_snoc :
    relayed sender lim (seen ++ [m]) =
      relayed sender lim seen ++ if passes sender lim seen m then [m] else [] := by
  unfold relayed passes filterAfter
  generalize newStreamFilter sender.opens = f
  induction seen generalizing f with
  | nil => rfl
  | cons m' seen ih =>
    simp only [cons_append, StreamFilter.relayed, foldl_cons, ih]
    split <;> rfl

theorem allows_of_mem_relayed (h : m ∈ relayed sender lim seen) :
    lim.allows m.ins.opcode := by
  induction seen using reverseRecOn with
  | nil => cases h
  | append_singleton seen last ih =>
    rw [relayed_snoc] at h
    rcases mem_append.mp h with hseen | hlast
    · exact ih hseen
    · split at hlast
      · rename_i hpass
        rw [mem_singleton.mp hlast]
        rw [passes, filterAfter_eq] at hpass
        exact allows_of_relay hpass
      · cases hlast

/-- The message opens the stream, or carries data or the end of it. -/
def Parsed.ofStream (sender : Sender) (idx : Nat) (m : Parsed) : Bool :=
  m.ins.opened sender = some idx || m.ins.carried = some idx

/-- **A stream goes on whole or not at all.** Whatever messages come in one direction: none that
goes on has an opcode the policy refuses; and from the opening of a stream up to its end, or to its
next opening, all messages of the stream go on, in order, if the policy allows the opening, and none
of them if it does not. -/
theorem streams_pass_whole (sender : Sender) (lim : Limits) :
    (∀ ms, ∀ m ∈ relayed sender lim ms, lim.allows m.ins.opcode = true) ∧
    ∀ before opening between idx, opening.ins.opened sender = some idx →
      (∀ m ∈ between, m.ins.opened sender ≠ some idx) →
      (∀ m ∈ between.dropLast, m.ins.ended ≠ some idx) →
      ∃ mid, relayed sender lim (before ++ opening :: between) = relayed sender lim before ++ mid ∧
        mid.filter (·.ofStream sender idx) =
          if lim.allows opening.ins.opcode then
            opening :: between.filter fun m => m.ins.carried = some idx
          else [] := by
  refine ⟨fun ms m hm => allows_of_mem_relayed hm, fun before opening between idx hopens => ?_⟩
  induction between using reverseRecOn with
  | nil =>
    intro _ _
    refine ⟨_, relayed_snoc, ?_⟩
    rw [passes_opened hopens]
    split <;> simp [Parsed.ofStream, hopens]
  | append_singleton between m ih =>
    intro hopened hended
    obtain ⟨hearlier, hlast⟩ := forall_mem_append.mp hopened
    rw [dropLast_concat] at hended
    obtain ⟨mid, hmid, hstream⟩ := ih hearlier fun m' h' => hended m' (mem_of_mem_dropLast h')
    rw [← cons_append, ← append_assoc, relayed_snoc, hmid, append_assoc]
    refine ⟨_, rfl, ?_⟩
    rw [filter_append, hstream, filter_append]
    have hnot : m.ins.opened sender ≠ some idx := hlast m mem_cons_self
    by_cases hcarried : m.ins.carried = some idx
    · -- the stream is blocked now exactly if its opening was refused
      have hpass : passes sender lim (before ++ opening :: between) m =
          lim.allows opening.ins.opcode := by
        rw [passes_carried hcarried, Bool.eq_iff_iff, decide_eq_true_iff,
          mem_blocked_since hopens hearlier, and_iff_left hended, Bool.not_eq_false]
      rw [hpass]
      split <;> simp [Parsed.ofStream, hcarried]
    · split <;> split <;> simp [Parsed.ofStream, hcarried, hnot]

end Zanskar.Guac
