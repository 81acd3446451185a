import Zanskar.Go.Url
import Zanskar.Lib.UrlStandard

/-!
# Where a sign-in goes on (`internal/idp/oidc/oidc.go`)

The address a person wanted comes back with a provider's answer, and `callback` redirects to it when
`safeNext` accepts it. Three parsers read it: Go's, which `safeNext` asks; the redirect's, which
cleans the path as it is written, fragment and all; and the browser's, which first removes
characters and reads a backslash as a slash. They agree where the host would begin, as the address
begins with one slash and has no character that the browser removes or reads as another one.

So every redirect of `callback` stays on the gateway's origin (`accepted_stays`, `callback_stays`).
-/

namespace Zanskar.Oidc

open Go List

variable (parseAuthority : Bytes → Except String (Option Bytes × Bytes)) {s : Bytes} {b : UInt8}
  {c : Char}

def safeNext (next : Bytes) : Bool :=
  -- exactly one slash at the front
  if next.head? ≠ some (ascii '/') || next.tail.head? = some (ascii '/') ||
      next.tail.head? = some (ascii '\\') then false
  else if (runes next).any fun r => r.1 < 0x20 || r.1 = 0x7F || r.1 = 0x5C then false
  else
    match parseURL parseAuthority next with
    | .error _ => false
    | .ok u =>
      if u.scheme ≠ [] || u.rootless ≠ [] || u.user ≠ none || u.host ≠ [] then false
      else if !(lit "/").isPrefixOf u.path || (lit "//").isPrefixOf u.path then false
      else if u.path ≠ clean u.path && u.path ≠ clean u.path ++ lit "/" then false
      else true

/-- The `Location` at the end of `callback`, for the address in the sealed cookie. -/
def callbackLocation (requestPath next : Bytes) (verified : Bool) : Bytes :=
  let next := if safeNext parseAuthority next then next else lit "/"
  let next := if verified then next else lit "/login?next=" ++ queryEscape next
  redirect parseAuthority requestPath next

/-! ## What a browser reads -/

/-- The characters of some bytes; a byte that begins none is the replacement character. -/
def browserText (s : Bytes) : List Char := (marks s).map shown

theorem browserText_char (c : Char) (s : Bytes) :
    browserText (encodeRune c ++ s) = c :: browserText s := by
  rw [browserText, marks_encodeRune]
  rfl

theorem browserText_bad (h : decodeRune (b :: s) = (runeError, 1)) :
    browserText (b :: s) = Char.ofNat runeError :: browserText s := by
  rw [browserText, marks_bad h]
  rfl

theorem exists_mem_encodeRune (h : c.toNat < 0x80) :
    ∃ b, encodeRune c = [b] ∧ b.toNat = c.toNat := by
  obtain ⟨b, t, henc, ⟨-, hb, rfl⟩ | ⟨hc, -⟩⟩ := encodeRune_head c
  · exact ⟨b, henc, hb⟩
  · omega

theorem mem_of_mem_browserText (hc : c ∈ browserText s)
    (hascii : c.toNat < 0x80) : ∃ b ∈ s, b.toNat = c.toNat := by
  induction s using runes_induction with
  | nil => cases hc
  | char d s ih =>
    rw [browserText_char, mem_cons] at hc
    rcases hc with rfl | hc
    · obtain ⟨b, henc, hb⟩ := exists_mem_encodeRune hascii
      exact ⟨b, by rw [henc]; exact mem_cons_self, hb⟩
    · obtain ⟨b, hb, hbc⟩ := ih hc
      exact ⟨b, mem_append_right _ hb, hbc⟩
  | bad b s hbad ih =>
    rw [browserText_bad hbad, mem_cons] at hc
    rcases hc with rfl | hc
    · exact absurd hascii (by decide)
    · obtain ⟨b, hb, hbc⟩ := ih hc
      exact ⟨b, mem_cons_of_mem _ hb, hbc⟩

/-- The first character, where it is of ASCII, was the first byte. -/
theorem head_of_head_browserText (hc : (browserText s).head? = some c)
    (hascii : c.toNat < 0x80) : ∃ b ∈ s.head?, b.toNat = c.toNat := by
  cases s using runes_induction with
  | nil => cases hc
  | char d s _ =>
    rw [browserText_char] at hc
    cases hc
    obtain ⟨b, henc, hb⟩ := exists_mem_encodeRune hascii
    exact ⟨b, by rw [henc]; rfl, hb⟩
  | bad b s hbad _ =>
    rw [browserText_bad hbad] at hc
    cases hc
    exact absurd hascii (by decide)

theorem exists_rune_of_mem (hb : b ∈ s) (hascii : b.toNat < 0x80) :
    ∃ r ∈ runes s, r.1 = b.toNat := by
  induction s using runes_induction with
  | nil => cases hb
  | char c s ih =>
    obtain ⟨d, t, henc, -⟩ := encodeRune_head c
    have hrunes : runes (encodeRune c ++ s) = (c.toNat, (encodeRune c).length) :: runes s := by
      have hdec := decodeRune_encodeRune c s
      have hdrop : (encodeRune c ++ s).drop (encodeRune c).length = s := drop_left
      rw [henc, cons_append] at hdec hdrop ⊢
      rw [runes_cons, hdec, hdrop]
    rw [hrunes]
    rcases mem_append.mp hb with hb | hb
    · exact ⟨_, mem_cons_self, (toNat_of_mem_encodeRune hb hascii).symm⟩
    · obtain ⟨r, hr, hrb⟩ := ih hb
      exact ⟨r, mem_cons_of_mem _ hr, hrb⟩
  | bad d s hbad ih =>
    rw [runes_cons, hbad]
    rcases mem_cons.mp hb with rfl | hb
    · have hdec : decodeRune (b :: s) = (b.toNat, 1) := by simp [decodeRune, hascii]
      rw [hbad, Prod.mk.injEq, runeError] at hdec
      omega
    · obtain ⟨r, hr, hrb⟩ := ih hb
      exact ⟨r, mem_cons_of_mem _ hr, hrb⟩

/-! ## Staying on the origin -/

section

variable {Host : Type} (parseHost : List Char → Option Host) (base : Web.Base Host)

theorem resolve_of_isPath (h : IsPath s) :
    Web.resolve parseHost base (browserText s) = some (.tuple base.toOrigin) := by
  obtain ⟨t, rfl, hhead⟩ := h.slash
  have htext : browserText (ascii '/' :: t) = '/' :: browserText t := browserText_char '/' t
  rw [htext]
  refine Web.resolve_of_path parseHost base ?_ ?_
  · rw [← htext]
    intro c hc
    rw [Bool.eq_false_iff]
    intro htab
    have hcontrol : c.toNat < 0x20 := by
      simp only [Web.isTabOrNewline, Bool.or_eq_true, decide_eq_true_eq] at htab
      rcases htab with (rfl | rfl) | rfl <;> decide
    obtain ⟨b, hb, hbc⟩ := mem_of_mem_browserText hc (by omega)
    have hprintable := (h.bytes b hb).1
    omega
  · intro c hc
    rw [Bool.eq_false_iff]
    intro hslash
    simp only [Web.isSlash, Bool.or_eq_true, decide_eq_true_eq] at hslash
    rcases hslash with rfl | rfl
    · obtain ⟨b, hb, hbc⟩ := head_of_head_browserText hc (by decide)
      exact hhead b hb (UInt8.toNat_inj.mp hbc)
    · obtain ⟨b, hb, hbc⟩ := head_of_head_browserText hc (by decide)
      exact (h.bytes b (mem_cons_of_mem _ (mem_of_mem_head? hb))).2 (UInt8.toNat_inj.mp hbc)

variable {parseAuthority}

theorem isPath_of_safeNext {next : Bytes} (h : safeNext parseAuthority next) :
    IsPath next := by
  unfold safeNext at h
  split at h
  · cases h
  split at h
  · cases h
  rename_i hfront hrunes
  simp only [Bool.or_eq_true, decide_eq_true_eq, not_or, not_not] at hfront
  obtain ⟨⟨hslash, hsecond⟩, -⟩ := hfront
  obtain ⟨t, rfl⟩ : ∃ t, next = ascii '/' :: t := by
    cases next with
    | nil => cases hslash
    | cons b t => exact ⟨t, by rw [Option.some.inj hslash]⟩
  refine ⟨⟨t, rfl, fun b hb hbslash => hsecond (hbslash ▸ hb)⟩, fun b hb => ?_⟩
  -- a byte that is not allowed would be a rune
  have hrune : b.toNat < 0x80 → ¬(b.toNat < 0x20) ∧ b.toNat ≠ 0x5C := by
    intro hascii
    obtain ⟨r, hr, hrb⟩ := exists_rune_of_mem hb hascii
    have hok := fun hbad => hrunes (any_eq_true.mpr ⟨r, hr, hbad⟩)
    simp only [Bool.or_eq_true, decide_eq_true_eq, hrb] at hok
    exact ⟨fun hlow => hok (.inl (.inl hlow)), fun hback => hok (.inr hback)⟩
  by_cases hascii : b.toNat < 0x80
  · refine ⟨Nat.le_of_not_lt (hrune hascii).1, ?_⟩
    rintro rfl
    exact (hrune hascii).2 rfl
  · refine ⟨by omega, ?_⟩
    rintro rfl
    exact hascii (by decide)

/-- **Open redirects.** Every address that `safeNext` accepts stays on the gateway's origin when a
browser resolves it, as it is and as `http.Redirect` writes it. -/
theorem accepted_stays {next : Bytes} (h : safeNext parseAuthority next = true)
    (requestPath : Bytes) :
    Web.resolve parseHost base (browserText next) = some (.tuple base.toOrigin) ∧
      Web.resolve parseHost base (browserText (redirect parseAuthority requestPath next)) =
        some (.tuple base.toOrigin) :=
  ⟨resolve_of_isPath parseHost base (isPath_of_safeNext h),
    resolve_of_isPath parseHost base
      (redirect_of_path parseAuthority (isPath_of_safeNext h) requestPath)⟩

/-- An address with a query, as a browser at `https://gw` resolves it. -/
theorem accepted_stays_for_query :
    safeNext (fun _ => .error "") (lit "/targets/7/?tab=live") = true ∧
      Web.resolve some Web.testBase (browserText (lit "/targets/7/?tab=live")) =
        some (.tuple Web.testBase.toOrigin) ∧
      Web.resolve some Web.testBase (browserText (redirect (fun _ => .error "")
          (lit "/callback") (lit "/targets/7/?tab=live"))) =
        some (.tuple Web.testBase.toOrigin) := by
  have haccepted : safeNext (fun _ => .error "") (lit "/targets/7/?tab=live") := by
    decide +kernel
  exact ⟨haccepted, accepted_stays some Web.testBase haccepted (lit "/callback")⟩

/-- **The way back from a provider.** Whatever address the sealed cookie holds, and whether or not
the second factor is still to be proved, the redirect of `callback` leads to the gateway's
origin. -/
theorem callback_stays (requestPath next : Bytes) (verified : Bool) :
    Web.resolve parseHost base
        (browserText (callbackLocation parseAuthority requestPath next verified)) =
      some (.tuple base.toOrigin) := by
  refine resolve_of_isPath parseHost base (redirect_of_path parseAuthority ?_ requestPath)
  split
  · split
    · exact isPath_of_safeNext ‹_›
    · exact ⟨⟨[], rfl, nofun⟩, fun b => bytes_of_all (by decide)⟩
  · -- the login page, with the address escaped behind it
    refine ⟨⟨_, rfl, fun b hb => ?_⟩, forall_mem_append.mpr
      ⟨fun b => bytes_of_all (by decide), fun b => bytes_queryEscape⟩⟩
    cases hb
    decide

end

end Zanskar.Oidc
