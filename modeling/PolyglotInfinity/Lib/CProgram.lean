import Mathlib.Algebra.BigOperators.Group.Finset.Basic
import Mathlib.Algebra.Order.Ring.Int
import Mathlib.Tactic.Linarith

/-!
# C programs over buffers

Computations on `int` values and buffers that fault where C has no meaning: a
signed overflow, or an access outside of a buffer. `Post` is total correctness:
the program ends without a fault and its result meets a condition.
-/

namespace CProgram

inductive Fault where
  | overflow | outOfBounds
  deriving DecidableEq, Repr

abbrev Run := Except Fault

variable {α β σ ρ : Type}

def InInt (x : ℤ) : Prop := -2 ^ 31 ≤ x ∧ x < 2 ^ 31

instance (x : ℤ) : Decidable (InInt x) := inferInstanceAs (Decidable (_ ∧ _))

def int (x : ℤ) : Run ℤ := if InInt x then .ok x else .error .overflow

def Inside (buf : Array α) (i : ℤ) : Prop := 0 ≤ i ∧ i < buf.size

instance (buf : Array α) (i : ℤ) : Decidable (Inside buf i) := inferInstanceAs (Decidable (_ ∧ _))

theorem Inside.toNat_lt {buf : Array α} {i : ℤ} (inside : Inside buf i) : i.toNat < buf.size := by
  obtain ⟨low, high⟩ := inside
  omega

def read (buf : Array α) (i : ℤ) : Run α :=
  if inside : Inside buf i then
    have := inside.toNat_lt
    .ok buf[i.toNat]
  else .error .outOfBounds

def write (buf : Array α) (i : ℤ) (x : α) : Run (Array α) :=
  if Inside buf i then .ok (buf.setIfInBounds i.toNat x) else .error .outOfBounds

def clear [Zero α] (buf : Array α) (cells : ℕ) : Run (Array α) :=
  if cells ≤ buf.size then .ok (Array.replicate cells 0 ++ buf.extract cells buf.size)
  else .error .outOfBounds

/-- `for (int i = lo; i < hi; i += step)`, after at most `fuel` more rounds. -/
def loop (hi step : ℤ) (body : ℤ → σ → Run σ) : ℕ → ℤ → σ → Run σ
  | 0, _, s => pure s
  | fuel + 1, i, s =>
    if i < hi then do
      let s ← body i s
      let i ← int (i + step)
      loop hi step body fuel i s
    else pure s

/-- The loop from `lo`. With a positive step it ends before its fuel does. -/
def forInt (lo hi step : ℤ) (body : ℤ → σ → Run σ) (s : σ) : Run σ :=
  loop hi step body (hi - lo).toNat lo s

/-- `for (int i = lo; i < hi; ++i)` with a body that may return from the function. -/
def returnLoop (hi : ℤ) (body : ℤ → σ → Run (ρ ⊕ σ)) : ℕ → ℤ → σ → Run (ρ ⊕ σ)
  | 0, _, s => pure (.inr s)
  | fuel + 1, i, s =>
    if i < hi then do
      match ← body i s with
      | .inl r => pure (.inl r)
      | .inr s => do
        let i ← int (i + 1)
        returnLoop hi body fuel i s
    else pure (.inr s)

def forReturn (lo hi : ℤ) (body : ℤ → σ → Run (ρ ⊕ σ)) (s : σ) : Run (ρ ⊕ σ) :=
  returnLoop hi body (hi - lo).toNat lo s

/-! ### Rules -/

def Post (x : Run α) (Q : α → Prop) : Prop := ∃ r, x = .ok r ∧ Q r

variable {Q : α → Prop}

theorem post_pure {r : α} : Post (pure r) Q ↔ Q r := by simp [Post, pure, Except.pure]

theorem post_bind {x : Run β} {f : β → Run α} : Post (x >>= f) Q ↔ Post x fun r => Post (f r) Q := by
  cases x <;> simp [Post, bind, Except.bind]

theorem bind_ok {x : Run β} {f : β → Run α} {r : α} : x >>= f = .ok r ↔ ∃ y, x = .ok y ∧ f y = .ok r := by
  cases x <;> simp [bind, Except.bind]

theorem Post.mono {P : α → Prop} {x : Run α} (post : Post x P) (weaker : ∀ r, P r → Q r) : Post x Q := by
  obtain ⟨r, ran, good⟩ := post
  exact ⟨r, ran, weaker r good⟩

theorem post_int {i : ℤ} {R : ℤ → Prop} : Post (int i) R ↔ InInt i ∧ R i := by
  by_cases fits : InInt i <;> simp [Post, int, fits]

theorem post_read {buf : Array α} {i : ℤ} : Post (read buf i) Q ↔ Inside buf i ∧ ∀ x ∈ buf[i.toNat]?, Q x := by
  by_cases inside : Inside buf i
  · simp [Post, read, inside, inside.toNat_lt]
  · simp [Post, read, inside]

theorem read_inside {buf : Array α} {i : ℤ} (fallback : α) (inside : Inside buf i)
    (post : Q (buf.getD i.toNat fallback)) : Post (read buf i) Q := by
  rw [post_read]
  refine ⟨inside, fun x found => ?_⟩
  rw [Array.getD_eq_getD_getElem?, Option.mem_def.mp found] at post
  exact post

theorem post_write {buf : Array α} {i : ℤ} {x : α} {R : Array α → Prop} :
    Post (write buf i x) R ↔ Inside buf i ∧ R (buf.setIfInBounds i.toNat x) := by
  by_cases inside : Inside buf i <;> simp [Post, write, inside]

theorem post_clear [Zero α] {buf : Array α} {cells : ℕ} {R : Array α → Prop} :
    Post (clear buf cells) R ↔
      cells ≤ buf.size ∧ R (Array.replicate cells 0 ++ buf.extract cells buf.size) := by
  by_cases fits : cells ≤ buf.size <;> simp [Post, clear, fits]

section
variable {lo hi step : ℤ} {body : ℤ → σ → Run σ} {s : σ}

theorem loop_post {I : ℤ → σ → Prop} {fuel : ℕ} {i : ℤ} (positive : 0 < step) (enough : hi - i ≤ fuel)
    (keep : ∀ j s, i ≤ j → j < hi → step ∣ j - i → I j s →
      Post (body j s) fun s' => InInt (j + step) ∧ I (j + step) s')
    (start : I i s) : Post (loop hi step body fuel i s) fun s' => ∃ j, hi ≤ j ∧ I j s' := by
  induction fuel generalizing i s with
  | zero => exact post_pure.mpr ⟨i, by simpa using enough, start⟩
  | succ fuel ih =>
    rw [loop]
    split
    · rename_i below
      rw [post_bind]
      refine (keep i s le_rfl below (by simp) start).mono fun s' ⟨fits, next⟩ => ?_
      rw [post_bind, post_int]
      refine ⟨fits, ih (by omega) (fun j t low high on => keep j t (by omega) high ?_) next⟩
      have : j - i = (j - (i + step)) + step := by omega
      exact this ▸ Int.dvd_add on (Int.dvd_refl step)
    · rename_i above
      exact post_pure.mpr ⟨i, not_lt.mp above, start⟩

/-- A loop keeps its invariant if each round does. -/
theorem post_for {I : ℤ → σ → Prop} (positive : 0 < step)
    (keep : ∀ i s, lo ≤ i → i < hi → step ∣ i - lo → I i s →
      Post (body i s) fun s' => InInt (i + step) ∧ I (i + step) s')
    (start : I lo s) : Post (forInt lo hi step body s) fun s' => ∃ i, hi ≤ i ∧ I i s' :=
  loop_post positive (by omega) keep start

theorem post_each {P : σ → Prop} (positive : 0 < step) (fits : ∀ i, lo ≤ i → i < hi → InInt (i + step))
    (keep : ∀ i s, lo ≤ i → i < hi → P s → Post (body i s) P) (start : P s) :
    Post (forInt lo hi step body s) P := by
  have ran := post_for (I := fun _ s => P s) positive (fun i s low high _ good =>
    (keep i s low high good).mono fun _ next => ⟨fits i low high, next⟩) start
  exact ran.mono fun _ ⟨_, _, good⟩ => good

theorem loop_visits {fuel : ℕ} {i j : ℤ} {r : σ} (positive : 0 < step) (enough : hi - i ≤ fuel)
    (ran : loop hi step body fuel i s = .ok r) (low : i ≤ j) (high : j < hi) (on : step ∣ j - i) :
    ∃ s r, body j s = .ok r := by
  induction fuel generalizing i s r with
  | zero => omega
  | succ fuel ih =>
    have below : i < hi := by omega
    have post : Post (loop hi step body (fuel + 1) i s) fun _ => True := ⟨r, ran, trivial⟩
    rw [loop, if_pos below, post_bind] at post
    obtain ⟨s', first, post⟩ := post
    rw [post_bind, post_int] at post
    obtain ⟨-, r', rest, -⟩ := post
    by_cases here : j = i
    · exact here ▸ ⟨s, s', first⟩
    · obtain ⟨t, same⟩ := on
      have t_pos : 0 < t := by
        by_contra h
        have : step * t ≤ 0 := mul_nonpos_of_nonneg_of_nonpos positive.le (not_lt.mp h)
        omega
      have later : i + step ≤ j := by nlinarith
      exact ih (by omega) rest later ⟨t - 1, by linarith⟩

/-- A loop that ends without a fault has run its body without one at every index. -/
theorem for_visits {i : ℤ} {r : σ} (positive : 0 < step) (ran : forInt lo hi step body s = .ok r)
    (low : lo ≤ i) (high : i < hi) (on : step ∣ i - lo) : ∃ s r, body i s = .ok r :=
  loop_visits positive (by omega) ran low high on

end

/-! ### Faults -/

/-- The result meets `Q`; there is a fault only if `E` holds. -/
def Ends (x : Run α) (Q : α → Prop) (E : Prop) : Prop := (∀ r, x = .ok r → Q r) ∧ ∀ fault, x = .error fault → E

variable {E : Prop}

theorem ends_ok {r : α} : Ends (.ok r) Q E ↔ Q r := by simp [Ends]

theorem ends_error {fault : Fault} : Ends (.error fault) Q E ↔ E := by simp [Ends]

theorem ends_pure {r : α} : Ends (pure r) Q E ↔ Q r := ends_ok

theorem ends_bind {x : Run β} {f : β → Run α} : Ends (x >>= f) Q E ↔ Ends x (fun r => Ends (f r) Q E) E := by
  cases x with
  | ok r =>
    rw [ends_ok]
    rfl
  | error fault =>
    rw [ends_error]
    exact ends_error

theorem Post.ends {x : Run α} (post : Post x Q) : Ends x Q E := by
  obtain ⟨r, rfl, good⟩ := post
  exact ends_ok.mpr good

theorem Ends.mono {P : α → Prop} {x : Run α} (ends : Ends x P E) (weaker : ∀ r, P r → Q r) : Ends x Q E :=
  ⟨fun r ran => weaker r (ends.1 r ran), ends.2⟩

theorem Ends.ok {x : Run α} (ends : Ends x Q E) (sound : ¬ E) : Post x Q := by
  cases x with
  | ok r => exact ⟨r, rfl, ends_ok.mp ends⟩
  | error fault => exact absurd (ends_error.mp ends) sound

theorem ends_int {i : ℕ} {R : ℤ → Prop} (fits : i < 2 ^ 31 → R i) (overflows : 2 ^ 31 ≤ i → E) : Ends (int i) R E := by
  by_cases inside : InInt i
  · rw [int, if_pos inside, ends_ok]
    exact fits (by exact_mod_cast inside.2)
  · rw [int, if_neg inside, ends_error]
    apply overflows
    unfold InInt at inside
    omega

theorem ends_read {buf : Array α} {i : ℕ} (fallback : α) (inside : i < buf.size) (good : Q (buf.getD i fallback)) :
    Ends (read buf i) Q E := by
  refine (read_inside fallback ⟨Int.natCast_nonneg i, by exact_mod_cast inside⟩ ?_).ends
  exact good

theorem ends_write {buf : Array α} {i : ℕ} {x : α} {R : Array α → Prop} (inside : i < buf.size)
    (good : R (buf.setIfInBounds i x)) : Ends (write buf i x) R E := by
  refine (post_write.mpr ⟨⟨Int.natCast_nonneg i, by exact_mod_cast inside⟩, ?_⟩).ends
  exact good

theorem loop_ends {hi : ℤ} {body : ℤ → σ → Run σ} {I : ℤ → σ → Prop} {fuel : ℕ} {i : ℤ} {s : σ} (low : 0 ≤ i)
    (below : i ≤ hi) (enough : hi - i ≤ fuel) (small : hi < 2 ^ 31)
    (keep : ∀ j s, i ≤ j → j < hi → I j s → Ends (body j s) (I (j + 1)) E) (start : I i s) :
    Ends (loop hi 1 body fuel i s) (I hi) E := by
  induction fuel generalizing i s with
  | zero =>
    obtain rfl : i = hi := by omega
    exact ends_pure.mpr start
  | succ fuel ih =>
    rw [loop]
    split
    · rename_i inside
      rw [ends_bind]
      refine (keep i s le_rfl inside start).mono fun s next => ?_
      have fits : InInt (i + 1) := ⟨by omega, by omega⟩
      rw [int, if_pos fits]
      exact ih (by omega) (by omega) (by omega) (fun j s above => keep j s (by omega)) next
    · obtain rfl : i = hi := by omega
      exact ends_pure.mpr start

theorem ends_count {lo hi : ℤ} {body : ℤ → σ → Run σ} {I : ℤ → σ → Prop} {s : σ} (low : 0 ≤ lo) (ordered : lo ≤ hi)
    (small : hi < 2 ^ 31) (keep : ∀ i s, lo ≤ i → i < hi → I i s → Ends (body i s) (I (i + 1)) E) (start : I lo s) :
    Ends (forInt lo hi 1 body s) (I hi) E :=
  loop_ends low ordered (by omega) small keep start

/-- A counting loop takes its invariant from one end to the other. -/
theorem post_count {lo hi : ℤ} {body : ℤ → σ → Run σ} {I : ℤ → σ → Prop} {s : σ} (ordered : lo ≤ hi) (low : 0 ≤ lo)
    (small : hi < 2 ^ 31) (keep : ∀ i s, lo ≤ i → i < hi → I i s → Post (body i s) (I (i + 1))) (start : I lo s) :
    Post (forInt lo hi 1 body s) (I hi) := by
  refine Ends.ok (ends_count low ordered small (fun i s above below good => ?_) start) not_false
  exact (keep i s above below good).ends

/-- A loop that adds one term after another. -/
theorem ends_sum {M : Type} [AddCommMonoid M] {d : ℕ} {f : ℕ → M} {body : ℤ → M → Run M} (small : d < 2 ^ 31)
    (each : ∀ t : ℕ, t < d → ∀ sum, Ends (body t sum) (· = sum + f t) E) :
    Ends (forInt 0 d 1 body 0) (· = ∑ t ∈ Finset.range d, f t) E := by
  refine ends_count (I := fun t sum => sum = ∑ t ∈ Finset.range t.toNat, f t) le_rfl (Int.natCast_nonneg d) (by omega)
    (fun t sum low high so_far => ?_) rfl
  lift t to ℕ using low
  refine (each t (by exact_mod_cast high) sum).mono fun next next_eq => ?_
  show next = ∑ t ∈ Finset.range (t + 1), f t
  rw [Finset.sum_range_succ, next_eq, so_far]
  rfl

section
variable {hi : ℤ} {body : ℤ → σ → Run (ρ ⊕ σ)} {I : ℤ → σ → Prop} {R : ρ → Prop}

theorem returnLoop_ends {fuel : ℕ} {i : ℤ} {s : σ} (low : 0 ≤ i) (below : i ≤ hi) (enough : hi - i ≤ fuel)
    (small : hi < 2 ^ 31) (keep : ∀ j s, i ≤ j → j < hi → I j s → Ends (body j s) (Sum.elim R (I (j + 1))) E)
    (start : I i s) : Ends (returnLoop hi body fuel i s) (Sum.elim R (I hi)) E := by
  induction fuel generalizing i s with
  | zero =>
    obtain rfl : i = hi := by omega
    exact ends_pure.mpr start
  | succ fuel ih =>
    rw [returnLoop]
    split
    · rename_i inside
      rw [ends_bind]
      refine (keep i s le_rfl inside start).mono fun r next => ?_
      cases r with
      | inl r => exact ends_pure.mpr next
      | inr s =>
        have fits : InInt (i + 1) := ⟨by omega, by omega⟩
        show Ends (int (i + 1) >>= _) _ _
        rw [int, if_pos fits]
        exact ih (by omega) (by omega) (by omega) (fun j s above => keep j s (by omega)) next
    · obtain rfl : i = hi := by omega
      exact ends_pure.mpr start

/-- A loop that may return: what its rounds keep, what they return, and why they fault. -/
theorem ends_forReturn {lo : ℤ} {s : σ} (low : 0 ≤ lo) (ordered : lo ≤ hi) (small : hi < 2 ^ 31)
    (keep : ∀ i s, lo ≤ i → i < hi → I i s → Ends (body i s) (Sum.elim R (I (i + 1))) E) (start : I lo s) :
    Ends (forReturn lo hi body s) (Sum.elim R (I hi)) E :=
  returnLoop_ends low ordered (by omega) small keep start

end

end CProgram
