import Mathlib.Logic.Function.Iterate
import Mathlib.Order.Basic

/-!
# While loops

A loop runs with some fuel, of which a loop that ends needs no more than a measure of its
state says.
-/

variable {σ : Type*}

/-- `while (cond) body`; `none` where the fuel does not suffice. -/
def whileLoop (cond : σ → Prop) [DecidablePred cond] (body : σ → σ) : ℕ → σ → Option σ
  | 0, s => if cond s then none else some s
  | fuel + 1, s => if cond s then whileLoop cond body fuel (body s) else some s

/-- If each round keeps the invariant and takes something from the measure, the loop ends
where its condition fails. -/
theorem whileLoop_ends {cond : σ → Prop} [DecidablePred cond] {body : σ → σ} (I : σ → Prop) (measure : σ → ℕ)
    (keep : ∀ s, I s → cond s → I (body s) ∧ measure (body s) < measure s) {fuel : ℕ} {s : σ} (start : I s)
    (enough : measure s ≤ fuel) : ∃ t, whileLoop cond body fuel s = some t ∧ I t ∧ ¬ cond t := by
  induction fuel generalizing s with
  | zero =>
    have stop : ¬ cond s := fun going => by
      have := (keep s start going).2
      omega
    exact ⟨s, if_neg stop, start, stop⟩
  | succ fuel ih =>
    rw [whileLoop]
    split
    · rename_i going
      obtain ⟨kept, less⟩ := keep s start going
      exact ih kept (by omega)
    · rename_i stop
      exact ⟨s, rfl, start, stop⟩

/-- A loop whose condition holds for `n` rounds and no longer. -/
theorem whileLoop_rounds {cond : σ → Prop} [DecidablePred cond] {body : σ → σ} {n fuel : ℕ} {s : σ}
    (going : ∀ i < n, cond (body^[i] s)) (stop : ¬ cond (body^[n] s)) (enough : n ≤ fuel) :
    whileLoop cond body fuel s = some (body^[n] s) := by
  induction n generalizing fuel s with
  | zero => cases fuel <;> exact if_neg stop
  | succ n ih =>
    obtain ⟨fuel, rfl⟩ := Nat.exists_eq_succ_of_ne_zero (Nat.ne_of_gt (Nat.lt_of_lt_of_le (Nat.succ_pos n) enough))
    have first : cond s := going 0 (Nat.succ_pos n)
    rw [whileLoop, if_pos first]
    exact ih (fun i i_lt => going (i + 1) (Nat.succ_lt_succ i_lt)) stop (by omega)
