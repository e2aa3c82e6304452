import PolyglotInfinity.Lib.CProgram

/-!
# Tiled matrix multiplication

`mat_multiply` of the C++ library, over any type with the operations it uses. A
matrix is a row-major buffer.
-/

namespace PolyglotInfinity.Matrix

open CProgram

variable {α : Type}

def tileSize : ℤ := 64

/-- `t + TILE_SIZE < hi ? t + TILE_SIZE : hi`. -/
def tileEnd (t hi : ℤ) : Run ℤ := do
  let e ← int (t + tileSize)
  pure (if e < hi then e else hi)

def offset (i width j : ℤ) : Run ℤ := do
  let row ← int (i * width)
  int (row + j)

/-- The elements that a `memset` of `rows * cols * sizeof(double)` bytes covers,
with the byte count in `size_t`. -/
def cells (rows cols : ℤ) : ℕ := (rows * cols * 8 % 2 ^ 64).toNat / 8

/-- The pointers that Rust passes are never null. -/
def matMultiply [Zero α] [Add α] [Mul α] (a : Array α) (m k : ℤ) (b : Array α) (n : ℤ) (out : Array α) :
    Run (Array α) :=
  if m ≤ 0 ∨ k ≤ 0 ∨ n ≤ 0 then pure out
  else do
    let out ← clear out (cells m n)
    forInt 0 m tileSize (fun ii out => do
      let iEnd ← tileEnd ii m
      forInt 0 k tileSize (fun ll out => do
        let lEnd ← tileEnd ll k
        forInt 0 n tileSize (fun jj out => do
          let jEnd ← tileEnd jj n
          forInt ii iEnd 1 (fun i out =>
            forInt ll lEnd 1 (fun l out => do
              let ail ← read a (← offset i k l)
              forInt jj jEnd 1 (fun j out => do
                let p ← offset i n j
                let x ← read out p
                let y ← read b (← offset l n j)
                write out p (x + ail * y)) out) out) out) out) out) out

/-! ### Memory safety -/

theorem post_tileEnd {t hi : ℤ} {Q : ℤ → Prop} :
    Post (tileEnd t hi) Q ↔ InInt (t + tileSize) ∧ Q (if t + tileSize < hi then t + tileSize else hi) := by
  rw [tileEnd, post_bind, post_int, post_pure]

theorem post_offset {i width j : ℤ} {Q : ℤ → Prop} :
    Post (offset i width j) Q ↔ InInt (i * width) ∧ InInt (i * width + j) ∧ Q (i * width + j) := by
  rw [offset, post_bind, post_int, post_int]

theorem cell_bounds {i j rows width : ℤ} (row : 0 ≤ i) (row_lt : i < rows) (col : 0 ≤ j) (col_lt : j < width) :
    0 ≤ i * width ∧ i * width < rows * width ∧ 0 ≤ i * width + j ∧ i * width + j < rows * width := by
  have width_pos : 0 < width := by omega
  have first : 0 ≤ i * width := mul_nonneg row width_pos.le
  have last : (i + 1) * width ≤ rows * width := mul_le_mul_of_nonneg_right (by omega) width_pos.le
  have split : (i + 1) * width = i * width + width := by rw [Int.add_mul, Int.one_mul]
  omega

theorem offset_inside {buf : Array α} {i j rows width : ℤ} {Q : ℤ → Prop} (size : (buf.size : ℤ) = rows * width)
    (small : rows * width ≤ 2 ^ 31) (row : 0 ≤ i) (row_lt : i < rows) (col : 0 ≤ j) (col_lt : j < width)
    (post : Inside buf (i * width + j) → Q (i * width + j)) : Post (offset i width j) Q := by
  obtain ⟨low, below, from_zero, high⟩ := cell_bounds row row_lt col col_lt
  rw [post_offset]
  exact ⟨⟨by omega, by omega⟩, ⟨by omega, by omega⟩, post ⟨from_zero, by omega⟩⟩

theorem store_cell {buf : Array α} {i j rows width : ℤ} {x : α} (size : (buf.size : ℤ) = rows * width)
    (small : rows * width ≤ 2 ^ 31) (row : 0 ≤ i) (row_lt : i < rows) (col : 0 ≤ j) (col_lt : j < width) :
    Post (do let p ← offset i width j; write buf p x) fun r => (r.size : ℤ) = rows * width := by
  rw [post_bind]
  refine offset_inside size small row row_lt col col_lt fun inside => ?_
  rw [post_write, Array.size_setIfInBounds]
  exact ⟨inside, size⟩

theorem cells_eq {rows cols : ℤ} (nonneg : 0 ≤ rows * cols) (small : rows * cols ≤ 2 ^ 31) :
    (cells rows cols : ℤ) = rows * cols := by
  unfold cells
  omega

/-- A tile loop takes its invariant over the whole side, one tile at a time. -/
theorem post_tiles {σ : Type} {I : ℤ → σ → Prop} {hi : ℤ} {body : ℤ → ℤ → σ → Run σ} {s : σ} (nonneg : 0 ≤ hi)
    (fits : hi ≤ 2 ^ 31 - tileSize)
    (keep : ∀ t e s, 0 ≤ t → t < e → e ≤ hi → I t s → Post (body t e s) (I e)) (start : I 0 s) :
    Post (forInt 0 hi tileSize (fun t s => do let e ← tileEnd t hi; body t e s) s) (I hi) := by
  have tile : tileSize = 64 := rfl
  have whole : I (min 0 hi) s := by rwa [min_eq_left nonneg]
  refine (post_for (I := fun t s => I (min t hi) s) (by decide) (fun t s low below _ good => ?_) whole).mono
    fun s ⟨t, above, good⟩ => ?_
  · rw [min_eq_left below.le] at good
    rw [post_bind, post_tileEnd]
    refine ⟨⟨by omega, by omega⟩, ?_⟩
    have last : (if t + tileSize < hi then t + tileSize else hi) = min (t + tileSize) hi := by
      split <;> omega
    rw [last]
    refine (keep t _ s low (by omega) (by omega) good).mono fun s next => ?_
    exact ⟨⟨by omega, by omega⟩, next⟩
  · rwa [min_eq_right above] at good

/-- A tile loop that ends without a fault has computed the end of its last tile,
so its side is not within a tile of the end of the `int` range. -/
theorem tiled_side {σ : Type} {hi : ℤ} {body : ℤ → ℤ → σ → Run σ} {s r : σ}
    (ran : forInt 0 hi tileSize (fun t s => do let e ← tileEnd t hi; body t e s) s = .ok r) :
    hi ≤ 2 ^ 31 - tileSize := by
  by_contra above
  -- The loop gets to this tile, and the end of the tile is no `int`.
  obtain ⟨s, r, last⟩ := for_visits (by decide) ran (by decide) (not_le.mp above) (by decide)
  obtain ⟨e, computed, -⟩ := bind_ok.mp last
  have post : Post (tileEnd (2 ^ 31 - tileSize) hi) fun _ => True := ⟨e, computed, trivial⟩
  rw [post_tileEnd, InInt] at post
  omega

theorem step_one {lo hi : ℤ} (low : 0 ≤ lo) (small : hi < 2 ^ 31) :
    ∀ i, lo ≤ i → i < hi → InInt (i + 1) := by
  intro i above below
  constructor <;> omega

section
variable [Add α] [Mul α] {a b out : Array α} {m k n : ℤ}

/-- The shapes agree with the buffers, and every cell has an `int` index. -/
structure Shapes (a : Array α) (m k : ℤ) (b : Array α) (n : ℤ) : Prop where
  m_pos : 0 < m
  k_pos : 0 < k
  n_pos : 0 < n
  aSize : (a.size : ℤ) = m * k
  bSize : (b.size : ℤ) = k * n
  aSmall : m * k < 2 ^ 31
  bSmall : k * n < 2 ^ 31
  outSmall : m * n < 2 ^ 31

theorem le_area {x y : ℤ} (x_pos : 0 < x) (y_pos : 0 < y) : x ≤ x * y ∧ y ≤ x * y :=
  ⟨le_mul_of_one_le_right x_pos.le y_pos, le_mul_of_one_le_left y_pos.le x_pos⟩

variable [Zero α]

theorem matMultiply_sides {r : Array α} (m_pos : 0 < m) (k_pos : 0 < k) (n_pos : 0 < n)
    (ran : matMultiply a m k b n out = .ok r) :
    m ≤ 2 ^ 31 - tileSize ∧ k ≤ 2 ^ 31 - tileSize ∧ n ≤ 2 ^ 31 - tileSize := by
  have tile : 0 < tileSize := by decide
  rw [matMultiply, if_neg (by omega), bind_ok] at ran
  obtain ⟨cleared, -, rows⟩ := ran
  obtain ⟨s, r, first⟩ := for_visits tile rows le_rfl m_pos (by simp)
  obtain ⟨iEnd, -, inner⟩ := bind_ok.mp first
  obtain ⟨s, r, first⟩ := for_visits tile inner le_rfl k_pos (by simp)
  obtain ⟨lEnd, -, columns⟩ := bind_ok.mp first
  exact ⟨tiled_side rows, tiled_side inner, tiled_side columns⟩

end

end PolyglotInfinity.Matrix
