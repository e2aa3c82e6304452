import Mathlib.Data.Int.DivMod
import Mathlib.Data.List.Basic
import Mathlib.Tactic.Ring

/-!
# The clock of the Elm terminal

`formatUtcTime`. The integer division of Elm keeps 32 bits of its quotient, so that the
seconds since the epoch wrap.
-/

namespace PolyglotInfinity.TerminalElm

/-- `//`, whose quotient is truncated to a signed integer of 32 bits. -/
def intDiv (a b : ℤ) : ℤ := (a.tdiv b).bmod (2 ^ 32)

/-- `modBy`, for a positive modulus. -/
def modBy (m x : ℤ) : ℤ := x % m

def padLeft (n : ℕ) (c : Char) (text : String) : String :=
  String.ofList (List.replicate (n - text.length) c ++ text.toList)

def formatUtcTime (posixToMillis : ℤ) : String :=
  let totalSeconds := intDiv posixToMillis 1000
  let h := modBy 24 (intDiv totalSeconds 3600)
  let m := modBy 60 (intDiv totalSeconds 60)
  let s := modBy 60 totalSeconds
  padLeft 2 '0' (toString h) ++ ":" ++ padLeft 2 '0' (toString m) ++ ":" ++ padLeft 2 '0' (toString s) ++ "  UTC"

/-! ### The text -/

/-- Hours, minutes and seconds with two digits each. -/
def clock (h m s : ℤ) : String :=
  padLeft 2 '0' (toString h) ++ ":" ++ padLeft 2 '0' (toString m) ++ ":" ++ padLeft 2 '0' (toString s) ++ "  UTC"

/-- The hours, minutes and seconds of the day at a second of the epoch. -/
def timeOfDay (t : ℤ) : String :=
  clock (t % 86400 / 3600) (t % 86400 / 60 % 60) (t % 86400 % 60)

theorem padLeft_digits : ∀ n : ℕ, n < 60 → (padLeft 2 '0' (toString (n : ℤ))).toList =
    [Nat.digitChar (n / 10), Nat.digitChar (n % 10)] := by
  decide +kernel

theorem digits_injective : ∀ a < 60, ∀ b < 60, Nat.digitChar (a / 10) = Nat.digitChar (b / 10) →
    Nat.digitChar (a % 10) = Nat.digitChar (b % 10) → a = b := by
  decide +kernel

theorem clock_injective {h m s h' m' s' : ℤ} (hours : 0 ≤ h ∧ h < 24) (minutes : 0 ≤ m ∧ m < 60)
    (seconds : 0 ≤ s ∧ s < 60) (hours' : 0 ≤ h' ∧ h' < 24) (minutes' : 0 ≤ m' ∧ m' < 60)
    (seconds' : 0 ≤ s' ∧ s' < 60) : clock h m s = clock h' m' s' ↔ h = h' ∧ m = m' ∧ s = s' := by
  constructor
  · intro same
    obtain ⟨h_nonneg, h_lt⟩ := hours
    obtain ⟨m_nonneg, m_lt⟩ := minutes
    obtain ⟨s_nonneg, s_lt⟩ := seconds
    obtain ⟨h'_nonneg, h'_lt⟩ := hours'
    obtain ⟨m'_nonneg, m'_lt⟩ := minutes'
    obtain ⟨s'_nonneg, s'_lt⟩ := seconds'
    lift h to ℕ using h_nonneg
    lift m to ℕ using m_nonneg
    lift s to ℕ using s_nonneg
    lift h' to ℕ using h'_nonneg
    lift m' to ℕ using m'_nonneg
    lift s' to ℕ using s'_nonneg
    have colon : ":".toList = [':'] := rfl
    have letters := congrArg String.toList same
    simp only [clock, colon, String.toList_append, padLeft_digits h (by omega), padLeft_digits m (by omega),
      padLeft_digits s (by omega), padLeft_digits h' (by omega), padLeft_digits m' (by omega),
      padLeft_digits s' (by omega), List.cons_append, List.nil_append, List.cons.injEq] at letters
    obtain ⟨h_tens, h_ones, -, m_tens, m_ones, -, s_tens, s_ones, -⟩ := letters
    rw [digits_injective h (by omega) h' (by omega) h_tens h_ones,
      digits_injective m (by omega) m' (by omega) m_tens m_ones,
      digits_injective s (by omega) s' (by omega) s_tens s_ones]
    exact ⟨rfl, rfl, rfl⟩
  · rintro ⟨rfl, rfl, rfl⟩
    rfl

/-! ### The seconds -/

theorem intDiv_millis {ms : ℤ} (nonneg : 0 ≤ ms) : intDiv ms 1000 = (ms / 1000).bmod (2 ^ 32) := by
  rw [intDiv, Int.tdiv_eq_ediv_of_nonneg nonneg]

/-- On 32 bits the quotient is only rounded towards zero. -/
theorem intDiv_seconds {w d : ℤ} (low : -2 ^ 31 ≤ w) (high : w < 2 ^ 31) (d_nonneg : 0 ≤ d) :
    intDiv w d = if 0 ≤ w then w / d else -(-w / d) := by
  have in_range {q : ℤ} (q_low : -2 ^ 31 ≤ q) (q_high : q < 2 ^ 31) : q.bmod (2 ^ 32) = q :=
    (Int.bmod_eq_iff (by decide)).mpr ⟨by omega, by omega, by simp⟩
  have shrinks {u : ℤ} (u_nonneg : 0 ≤ u) : 0 ≤ u / d ∧ u / d ≤ u :=
    ⟨Int.ediv_nonneg u_nonneg d_nonneg, Int.ediv_le_self d u_nonneg⟩
  unfold intDiv
  split_ifs with nonneg
  · have quotient := shrinks nonneg
    rw [Int.tdiv_eq_ediv_of_nonneg nonneg, in_range (by omega) (by omega)]
  · have quotient := shrinks (u := -w) (by omega)
    have toward_zero : w.tdiv d = -(-w / d) := by
      rw [← Int.tdiv_eq_ediv_of_nonneg (by omega), Int.neg_tdiv, neg_neg]
    rw [toward_zero, in_range (by omega) (by omega)]

/-- Seconds since the epoch, as a word of 32 bits has them. -/
def wrapped (t : ℤ) : ℤ := t.bmod (2 ^ 32)

theorem wrapped_low {t : ℤ} (low : t % 2 ^ 32 < 2 ^ 31) : wrapped t = t - 2 ^ 32 * (t / 2 ^ 32) := by
  apply (Int.bmod_eq_iff (by decide)).mpr
  exact ⟨by omega, by omega, Dvd.intro (-(t / 2 ^ 32)) (by push_cast; ring)⟩

theorem wrapped_high {t : ℤ} (high : 2 ^ 31 ≤ t % 2 ^ 32) : wrapped t = t - 2 ^ 32 * (t / 2 ^ 32 + 1) := by
  apply (Int.bmod_eq_iff (by decide)).mpr
  exact ⟨by omega, by omega, Dvd.intro (-(t / 2 ^ 32 + 1)) (by push_cast; ring)⟩

theorem wrapped_range (t : ℤ) : -2 ^ 31 ≤ wrapped t ∧ wrapped t < 2 ^ 31 :=
  ⟨Int.le_bmod (by decide), Int.bmod_lt (by decide)⟩

theorem formatUtcTime_eq {ms : ℤ} (nonneg : 0 ≤ ms) : formatUtcTime ms =
    let w := wrapped (ms / 1000)
    if 0 ≤ w then clock (w / 3600 % 24) (w / 60 % 60) (w % 60)
    else clock (-(-w / 3600) % 24) (-(-w / 60) % 60) (w % 60) := by
  obtain ⟨low, high⟩ := wrapped_range (ms / 1000)
  have seconds : intDiv ms 1000 = wrapped (ms / 1000) := intDiv_millis nonneg
  unfold formatUtcTime modBy
  rw [seconds]
  dsimp only
  rw [intDiv_seconds low high (by decide), intDiv_seconds low high (by decide)]
  split_ifs <;> rfl

/-! ### Times of day -/

/-- Hours, minutes and seconds are those of the day exactly if the day has that second. -/
theorem parts_iff (w t : ℤ) :
    (w / 3600 % 24 = t % 86400 / 3600 ∧ w / 60 % 60 = t % 86400 / 60 % 60 ∧ w % 60 = t % 86400 % 60) ↔
      w % 86400 = t % 86400 := by
  omega

theorem days_iff (k : ℤ) : 86400 ∣ 2 ^ 32 * k ↔ 675 ∣ k := by omega

/-- An hour too many, with or without a minute too many, is no multiple of 128 seconds, and
neither is a day. -/
theorem rounded_up_off {h m s : ℤ} (minute : 0 ≤ m ∧ m < 60) (some_rest : m ≠ 0 ∨ s ≠ 0) :
    (3600 * ((h + 1) % 24) + 60 * ((60 * h + m + if s = 0 then 0 else 1) % 60) + s) % 128 ≠
      (3600 * h + 60 * m + s) % 128 := by
  intro same
  obtain ⟨j, hours⟩ : ∃ j, (h + 1) % 24 = h + 1 - 24 * j := ⟨(h + 1) / 24, by omega⟩
  rw [hours] at same
  clear hours
  split_ifs at same with whole
  · have minutes : (60 * h + m + 0) % 60 = m := by omega
    rw [minutes] at same
    omega
  · have early_or_last : m < 59 ∨ m = 59 := by omega
    rcases early_or_last with early | rfl
    · have minutes : (60 * h + m + 1) % 60 = m + 1 := by omega
      rw [minutes] at same
      omega
    · have minutes : (60 * h + 59 + 1) % 60 = 0 := by omega
      rw [minutes] at same
      omega

/-- Rounding towards zero is rounding up. -/
theorem ceil_hours (w : ℤ) : -(-w / 3600) = w / 3600 + if w % 3600 = 0 then 0 else 1 := by
  split_ifs <;> omega

theorem ceil_minutes (w : ℤ) : -(-w / 60) = w / 60 + if w % 60 = 0 then 0 else 1 := by
  split_ifs <;> omega

theorem day_parts (t : ℤ) :
    t % 86400 = 3600 * (t % 86400 / 3600) + 60 * (t % 86400 / 60 % 60) + t % 86400 % 60 := by
  omega

theorem same_residue {w t : ℤ} (wraps : 2 ^ 32 ∣ t - w) : t % 86400 % 128 = w % 128 := by
  omega

theorem parts_below_iff {w t : ℤ} (wraps : 2 ^ 32 ∣ t - w) :
    (-(-w / 3600) % 24 = t % 86400 / 3600 ∧ -(-w / 60) % 60 = t % 86400 / 60 % 60 ∧ w % 60 = t % 86400 % 60) ↔
      3600 ∣ w ∧ w % 86400 = t % 86400 := by
  by_cases whole : w % 3600 = 0
  · have whole_minute : w % 60 = 0 := by omega
    rw [ceil_hours, ceil_minutes, if_pos whole, if_pos whole_minute, add_zero, add_zero, parts_iff,
      and_iff_right (Int.dvd_of_emod_eq_zero whole)]
  · refine iff_of_false (fun ⟨hours, minutes, seconds⟩ => ?_) fun ⟨divides, _⟩ => whole (Int.emod_eq_zero_of_dvd divides)
    have residue := same_residue wraps
    rw [day_parts t, ← hours, ← minutes, ← seconds, ceil_hours, ceil_minutes, if_neg whole] at residue
    clear hours minutes seconds wraps
    have minute : 60 * (w / 3600) + w / 60 % 60 = w / 60 := by omega
    have number : 3600 * (w / 3600) + 60 * (w / 60 % 60) + w % 60 = w := by omega
    have off := rounded_up_off (h := w / 3600) (m := w / 60 % 60) (s := w % 60) ⟨by omega, by omega⟩
      (by omega)
    rw [minute, number] at off
    exact off residue

theorem same_day_iff {w t k : ℤ} (wraps : w = t - 2 ^ 32 * k) : w % 86400 = t % 86400 ↔ 675 ∣ k := by
  rw [← days_iff, wraps]
  omega

/-- The time of day is shown until the seconds wrap, and where a multiple of whole wraps is a
number of days; below zero the hours and minutes are also rounded the wrong way. -/
theorem formatUtcTime_iff {ms : ℤ} (nonneg : 0 ≤ ms) : formatUtcTime ms = timeOfDay (ms / 1000) ↔
    (ms / 1000 % 2 ^ 32 < 2 ^ 31 ∧ 675 ∣ ms / 1000 / 2 ^ 32) ∨
      (2 ^ 31 ≤ ms / 1000 % 2 ^ 32 ∧ 675 ∣ ms / 1000 / 2 ^ 32 + 1 ∧ 3600 ∣ ms / 1000) := by
  rw [formatUtcTime_eq nonneg, timeOfDay]
  generalize ms / 1000 = t
  have hours : 0 ≤ t % 86400 / 3600 ∧ t % 86400 / 3600 < 24 := ⟨by omega, by omega⟩
  have minutes : 0 ≤ t % 86400 / 60 % 60 ∧ t % 86400 / 60 % 60 < 60 := ⟨by omega, by omega⟩
  have seconds : 0 ≤ t % 86400 % 60 ∧ t % 86400 % 60 < 60 := ⟨by omega, by omega⟩
  have hour_range (x : ℤ) : 0 ≤ x % 24 ∧ x % 24 < 24 := ⟨by omega, by omega⟩
  have range (x : ℤ) : 0 ≤ x % 60 ∧ x % 60 < 60 := ⟨by omega, by omega⟩
  rcases lt_or_ge (t % 2 ^ 32) (2 ^ 31) with low | high
  · have wraps := wrapped_low low
    have w_nonneg : 0 ≤ wrapped t := by omega
    rw [if_pos w_nonneg, clock_injective (hour_range _) (range _) (range _) hours minutes seconds, parts_iff,
      same_day_iff wraps, or_iff_left fun ⟨high, _⟩ => absurd low (not_lt.mpr high), and_iff_right low]
  · have wraps := wrapped_high high
    have w_neg : ¬ 0 ≤ wrapped t := by omega
    rw [if_neg w_neg, clock_injective (hour_range _) (range _) (range _) hours minutes seconds,
      parts_below_iff (Dvd.intro (t / 2 ^ 32 + 1) (by omega)), same_day_iff wraps,
      or_iff_right fun ⟨low, _⟩ => absurd low (not_lt.mpr high), and_iff_right high]
    generalize wrapped t = w at wraps
    generalize t / 2 ^ 32 + 1 = k at wraps
    omega

theorem formatUtcTime_iff_start : formatUtcTime 1000 = timeOfDay (1000 / 1000) ↔
    ((1000 : ℤ) / 1000 % 2 ^ 32 < 2 ^ 31 ∧ (675 : ℤ) ∣ 1000 / 1000 / 2 ^ 32) ∨
      ((2 : ℤ) ^ 31 ≤ 1000 / 1000 % 2 ^ 32 ∧ (675 : ℤ) ∣ 1000 / 1000 / 2 ^ 32 + 1 ∧ (3600 : ℤ) ∣ 1000 / 1000) :=
  formatUtcTime_iff (by decide)

/-- In January 2038 the clock jumps: it shows 20:46:52, and not 03:14:08. -/
theorem clock_jumps : ¬ formatUtcTime 2147483648000 = timeOfDay (2147483648000 / 1000) := by
  decide +kernel

end PolyglotInfinity.TerminalElm
