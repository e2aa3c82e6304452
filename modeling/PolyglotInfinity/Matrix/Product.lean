import PolyglotInfinity.Matrix.Multiply

/-!
# What the tiled multiplication computes

How many terms of its fold each cell has taken in: the loops fill one block of cells
after another, from the inner loop outwards.
-/

namespace PolyglotInfinity.Matrix

open CProgram

variable {α : Type} [Zero α] [Add α] [Mul α] {a b out : Array α} {m k n : ℕ} {D E : ℤ → ℤ → ℤ}

/-- The left fold of `acc + a[i*k+l] * b[l*n+j]` over `l` in ascending order, from 0. -/
def dot (a b : Array α) (k n i j d : ℕ) : α :=
  (List.range d).foldl (fun acc l => acc + a.getD (i * k + l) 0 * b.getD (l * n + j) 0) 0

theorem dot_succ (i j d : ℕ) :
    dot a b k n i j (d + 1) = dot a b k n i j d + a.getD (i * k + d) 0 * b.getD (d * n + j) 0 := by
  unfold dot
  rw [List.range_succ, List.foldl_append]
  rfl

/-- The cell in row `i` and column `j` has the first `D i j` terms. -/
structure Holds (a b : Array α) (m k n : ℕ) (D : ℤ → ℤ → ℤ) (out : Array α) : Prop where
  size : out.size = m * n
  cell : ∀ i j : ℕ, i < m → j < n → out.getD (i * n + j) 0 = dot a b k n i j (D i j).toNat

def fill (D : ℤ → ℤ → ℤ) (top bottom left right d : ℤ) : ℤ → ℤ → ℤ := fun i j =>
  if top ≤ i ∧ i < bottom ∧ left ≤ j ∧ j < right then d else D i j

theorem Holds.congr (holds : Holds a b m k n D out)
    (same : ∀ i j : ℤ, 0 ≤ i → i < m → 0 ≤ j → j < n → D i j = E i j) : Holds a b m k n E out := by
  refine ⟨holds.size, fun i j i_lt j_lt => ?_⟩
  rw [← same i j (by omega) (by omega) (by omega) (by omega)]
  exact holds.cell i j i_lt j_lt

/-- The shapes agree with the buffers, and every cell has an `int` index. -/
structure Fits (a b : Array α) (m k n : ℕ) : Prop where
  aSize : a.size = m * k
  bSize : b.size = k * n
  aSmall : m * k ≤ 2 ^ 31
  bSmall : k * n ≤ 2 ^ 31
  outSmall : m * n ≤ 2 ^ 31
  m_le : m ≤ 2 ^ 31 - 64
  k_le : k ≤ 2 ^ 31 - 64
  n_le : n ≤ 2 ^ 31 - 64

theorem cell_index (i j : ℕ) : ((i : ℤ) * n + j).toNat = i * n + j := by
  have cast : (i : ℤ) * n + j = (i * n + j : ℕ) := by push_cast; rfl
  rw [cast, Int.toNat_natCast]

theorem cell_lt {i j : ℕ} (i_lt : i < m) (j_lt : j < n) : i * n + j < m * n := by
  have row : (i + 1) * n ≤ m * n := Nat.mul_le_mul_right n i_lt
  rw [Nat.succ_mul] at row
  omega

theorem cell_inj {i j x y : ℕ} (j_lt : j < n) (y_lt : y < n) (same : x * n + y = i * n + j) : x = i ∧ y = j := by
  rcases Nat.lt_trichotomy x i with before | rfl | after
  · have := cell_lt before y_lt
    omega
  · omega
  · have := cell_lt after j_lt
    omega

/-- The program takes the cells of a block from `lo` terms to `hi`. -/
def Fills (a b : Array α) (m k n : ℕ) (program : Array α → Run (Array α)) (top bottom left right lo hi : ℤ) : Prop :=
  ∀ D out, Holds a b m k n D out → (∀ i j, top ≤ i → i < bottom → left ≤ j → j < right → D i j = lo) →
    Post (program out) (Holds a b m k n (fill D top bottom left right hi))

/-- The statement of the inner loop takes the term `l` into its cell. -/
theorem fills_cell (fits : Fits a b m k n) {i l j : ℕ} (i_lt : i < m) (l_lt : l < k) (j_lt : j < n) :
    Fills a b m k n (fun out => do
      let p ← offset i n j
      let x ← read out p
      let y ← read b (← offset l n j)
      write out p (x + a.getD (i * k + l) 0 * y)) i (i + 1) j (j + 1) l (l + 1) := by
  intro D out holds ready
  have outSize : (out.size : ℤ) = (m : ℤ) * n := by rw [holds.size]; push_cast; rfl
  have bSize : (b.size : ℤ) = (k : ℤ) * n := by rw [fits.bSize]; push_cast; rfl
  have outSmall : (m : ℤ) * n ≤ 2 ^ 31 := by exact_mod_cast fits.outSmall
  have bSmall : (k : ℤ) * n ≤ 2 ^ 31 := by exact_mod_cast fits.bSmall
  rw [post_bind]
  refine offset_inside outSize outSmall (by omega) (by omega) (by omega) (by omega) fun target => ?_
  rw [post_bind]
  refine read_inside 0 target ?_
  rw [post_bind]
  refine offset_inside bSize bSmall (by omega) (by omega) (by omega) (by omega) fun source => ?_
  rw [post_bind]
  refine read_inside 0 source ?_
  rw [post_write]
  refine ⟨target, by rw [Array.size_setIfInBounds, holds.size], fun x y x_lt y_lt => ?_⟩
  rw [cell_index, cell_index, holds.cell i j i_lt j_lt,
    ready i j le_rfl (by omega) le_rfl (by omega), Int.toNat_natCast, ← dot_succ,
    Array.getD_eq_getD_getElem?, Array.getElem?_setIfInBounds]
  by_cases same : x = i ∧ y = j
  · obtain ⟨rfl, rfl⟩ := same
    have bound : x * n + y < out.size := by
      rw [holds.size]
      exact cell_lt i_lt j_lt
    have here : fill D x (x + 1) y (y + 1) (l + 1) x y = ((l + 1 : ℕ) : ℤ) := by
      unfold fill
      rw [if_pos (by omega)]
      push_cast
      rfl
    rw [if_pos rfl, if_pos bound, here, Int.toNat_natCast]
    rfl
  · have apart : i * n + j ≠ x * n + y := fun equal => same (cell_inj j_lt y_lt equal.symm)
    have elsewhere : fill D i (i + 1) j (j + 1) (l + 1) x y = D x y := by
      unfold fill
      rw [if_neg (by omega)]
    rw [if_neg apart, ← Array.getD_eq_getD_getElem?, elsewhere]
    exact holds.cell x y x_lt y_lt

section Blocks

variable {program : Array α → Run (Array α)} {body : ℤ → Array α → Run (Array α)}
  {tile : ℤ → ℤ → Array α → Run (Array α)} {top bottom left right lo hi t e : ℤ}

theorem Fills.columnStep (fills : Fills a b m k n program top bottom t e lo hi) (from_left : left ≤ t) (next : t ≤ e)
    (to_right : e ≤ right) (ready : ∀ i j, top ≤ i → i < bottom → left ≤ j → j < right → D i j = lo)
    (holds : Holds a b m k n (fill D top bottom left t hi) out) :
    Post (program out) (Holds a b m k n (fill D top bottom left e hi)) := by
  refine (fills _ out holds fun i j _ _ _ _ => ?_).mono fun out holds => holds.congr fun i j _ _ _ _ => ?_
  · unfold fill
    rw [if_neg (by omega)]
    apply ready <;> omega
  · unfold fill
    split_ifs <;> omega

theorem Fills.rowStep (fills : Fills a b m k n program t e left right lo hi) (from_top : top ≤ t) (next : t ≤ e)
    (to_bottom : e ≤ bottom) (ready : ∀ i j, top ≤ i → i < bottom → left ≤ j → j < right → D i j = lo)
    (holds : Holds a b m k n (fill D top t left right hi) out) :
    Post (program out) (Holds a b m k n (fill D top e left right hi)) := by
  refine (fills _ out holds fun i j _ _ _ _ => ?_).mono fun out holds => holds.congr fun i j _ _ _ _ => ?_
  · unfold fill
    rw [if_neg (by omega)]
    apply ready <;> omega
  · unfold fill
    split_ifs <;> omega

theorem Fills.termStep (fills : Fills a b m k n program top bottom left right t e)
    (holds : Holds a b m k n (fill D top bottom left right t) out) :
    Post (program out) (Holds a b m k n (fill D top bottom left right e)) := by
  refine (fills _ out holds fun i j _ _ _ _ => ?_).mono fun out holds => holds.congr fun i j _ _ _ _ => ?_
  · unfold fill
    rw [if_pos (by omega)]
  · unfold fill
    split_ifs <;> omega

theorem Holds.noColumns (holds : Holds a b m k n D out) : Holds a b m k n (fill D top bottom left left hi) out := by
  refine holds.congr fun i j _ _ _ _ => ?_
  unfold fill
  rw [if_neg (by omega)]

theorem Holds.noRows (holds : Holds a b m k n D out) : Holds a b m k n (fill D top top left right hi) out := by
  refine holds.congr fun i j _ _ _ _ => ?_
  unfold fill
  rw [if_neg (by omega)]

theorem Holds.noTerms (holds : Holds a b m k n D out)
    (ready : ∀ i j, top ≤ i → i < bottom → left ≤ j → j < right → D i j = lo) :
    Holds a b m k n (fill D top bottom left right lo) out := by
  refine holds.congr fun i j _ _ _ _ => ?_
  unfold fill
  split_ifs with inside
  · exact ready i j inside.1 inside.2.1 inside.2.2.1 inside.2.2.2
  · rfl

theorem fills_columns (ordered : left ≤ right) (low : 0 ≤ left) (small : right < 2 ^ 31)
    (each : ∀ j, left ≤ j → j < right → Fills a b m k n (body j) top bottom j (j + 1) lo hi) :
    Fills a b m k n (forInt left right 1 body) top bottom left right lo hi := by
  intro D out holds ready
  exact post_count (I := fun j => Holds a b m k n (fill D top bottom left j hi)) ordered low small
    (fun j out above below now => (each j above below).columnStep above (by omega) (by omega) ready now)
    holds.noColumns

theorem fills_rows (ordered : top ≤ bottom) (low : 0 ≤ top) (small : bottom < 2 ^ 31)
    (each : ∀ i, top ≤ i → i < bottom → Fills a b m k n (body i) i (i + 1) left right lo hi) :
    Fills a b m k n (forInt top bottom 1 body) top bottom left right lo hi := by
  intro D out holds ready
  exact post_count (I := fun i => Holds a b m k n (fill D top i left right hi)) ordered low small
    (fun i out above below now => (each i above below).rowStep above (by omega) (by omega) ready now) holds.noRows

theorem fills_terms (ordered : lo ≤ hi) (low : 0 ≤ lo) (small : hi < 2 ^ 31)
    (each : ∀ l, lo ≤ l → l < hi → Fills a b m k n (body l) top bottom left right l (l + 1)) :
    Fills a b m k n (forInt lo hi 1 body) top bottom left right lo hi := by
  intro D out holds ready
  exact post_count (I := fun l => Holds a b m k n (fill D top bottom left right l)) ordered low small
    (fun l out above below now => (each l above below).termStep now) (holds.noTerms ready)

theorem fills_columnTiles (nonneg : 0 ≤ right) (fits : right ≤ 2 ^ 31 - tileSize)
    (each : ∀ t e, 0 ≤ t → t < e → e ≤ right → Fills a b m k n (tile t e) top bottom t e lo hi) :
    Fills a b m k n (forInt 0 right tileSize fun t out => do let e ← tileEnd t right; tile t e out)
      top bottom 0 right lo hi := by
  intro D out holds ready
  exact post_tiles (I := fun j => Holds a b m k n (fill D top bottom 0 j hi)) nonneg fits
    (fun t e out low next below now => (each t e low next below).columnStep low next.le below ready now)
    holds.noColumns

theorem fills_rowTiles (nonneg : 0 ≤ bottom) (fits : bottom ≤ 2 ^ 31 - tileSize)
    (each : ∀ t e, 0 ≤ t → t < e → e ≤ bottom → Fills a b m k n (tile t e) t e left right lo hi) :
    Fills a b m k n (forInt 0 bottom tileSize fun t out => do let e ← tileEnd t bottom; tile t e out)
      0 bottom left right lo hi := by
  intro D out holds ready
  exact post_tiles (I := fun i => Holds a b m k n (fill D 0 i left right hi)) nonneg fits
    (fun t e out low next below now => (each t e low next below).rowStep low next.le below ready now) holds.noRows

theorem fills_termTiles (nonneg : 0 ≤ hi) (fits : hi ≤ 2 ^ 31 - tileSize)
    (each : ∀ t e, 0 ≤ t → t < e → e ≤ hi → Fills a b m k n (tile t e) top bottom left right t e) :
    Fills a b m k n (forInt 0 hi tileSize fun t out => do let e ← tileEnd t hi; tile t e out)
      top bottom left right 0 hi := by
  intro D out holds ready
  exact post_tiles (I := fun l => Holds a b m k n (fill D top bottom left right l)) nonneg fits
    (fun t e out low next below now => (each t e low next below).termStep now) (holds.noTerms ready)

end Blocks

theorem fills_row (fits : Fits a b m k n) {i l : ℕ} {jj jEnd : ℤ} (i_lt : i < m) (l_lt : l < k) (low : 0 ≤ jj)
    (ordered : jj ≤ jEnd) (jEnd_le : jEnd ≤ n) :
    Fills a b m k n (fun out => do
      let ail ← read a (← offset i k l)
      forInt jj jEnd 1 (fun j out => do
        let p ← offset i n j
        let x ← read out p
        let y ← read b (← offset l n j)
        write out p (x + ail * y)) out) i (i + 1) jj jEnd l (l + 1) := by
  intro D out holds ready
  have n_le := fits.n_le
  have aSize : (a.size : ℤ) = (m : ℤ) * k := by rw [fits.aSize]; push_cast; rfl
  have aSmall : (m : ℤ) * k ≤ 2 ^ 31 := by exact_mod_cast fits.aSmall
  rw [post_bind]
  refine offset_inside aSize aSmall (by omega) (by omega) (by omega) (by omega) fun inside => ?_
  rw [post_bind]
  refine read_inside 0 inside ?_
  rw [cell_index]
  refine fills_columns ordered low (by omega) (fun j above below => ?_) D out holds ready
  lift j to ℕ using by omega
  exact fills_cell fits i_lt l_lt (by omega)

theorem cleared_holds (outSize : out.size = m * n) (small : m * n ≤ 2 ^ 31) :
    Post (clear out (cells m n)) (Holds a b m k n fun _ _ => 0) := by
  have whole : cells m n = m * n := by
    have cast : (cells m n : ℤ) = (m : ℤ) * n := cells_eq (by positivity) (by exact_mod_cast small)
    exact_mod_cast cast
  rw [post_clear, whole, ← outSize]
  refine ⟨le_rfl, by simp [outSize], fun i j i_lt j_lt => ?_⟩
  have bound : i * n + j < out.size := by
    rw [outSize]
    exact cell_lt i_lt j_lt
  simp [Array.getD_eq_getD_getElem?, bound, dot]

/-- All six loops together: every cell has all its terms. -/
theorem matMultiply_fills (fits : Fits a b m k n) (m_pos : 0 < m) (k_pos : 0 < k) (n_pos : 0 < n)
    (outSize : out.size = m * n) : Post (matMultiply a m k b n out) (Holds a b m k n fun _ _ => k) := by
  have tile : tileSize = 64 := rfl
  have m_le := fits.m_le
  have k_le := fits.k_le
  have n_le := fits.n_le
  rw [matMultiply, if_neg (by omega), post_bind]
  refine (cleared_holds (a := a) (b := b) (k := k) outSize fits.outSmall).mono fun out zeroed => ?_
  refine Post.mono (P := Holds a b m k n (fill (fun _ _ => 0) 0 m 0 n k)) ?_ fun out holds => ?_
  · refine fills_rowTiles (by omega) (by omega) (fun ii iEnd ii_low ii_lt iEnd_le => ?_) _ out zeroed
      fun _ _ _ _ _ _ => rfl
    refine fills_termTiles (by omega) (by omega) fun ll lEnd ll_low ll_lt lEnd_le => ?_
    refine fills_columnTiles (by omega) (by omega) fun jj jEnd jj_low jj_lt jEnd_le => ?_
    refine fills_rows ii_lt.le ii_low (by omega) fun i i_low i_lt => ?_
    refine fills_terms ll_lt.le ll_low (by omega) fun l l_low l_lt => ?_
    lift i to ℕ using by omega
    lift l to ℕ using by omega
    exact fills_row fits (by omega) (by omega) jj_low jj_lt.le jEnd_le
  · refine holds.congr fun i j _ _ _ _ => ?_
    unfold fill
    rw [if_pos (by omega)]

theorem matMultiply_runs {m k n : ℤ} (shapes : Shapes a m k b n) (outSize : (out.size : ℤ) = m * n)
    (m_le : m ≤ 2 ^ 31 - tileSize) (k_le : k ≤ 2 ^ 31 - tileSize) (n_le : n ≤ 2 ^ 31 - tileSize) :
    Post (matMultiply a m k b n out) fun r => (r.size : ℤ) = m * n := by
  have tile : tileSize = 64 := rfl
  obtain ⟨m_pos, k_pos, n_pos, aSize, bSize, aSmall, bSmall, outSmall⟩ := shapes
  lift m to ℕ using m_pos.le
  lift k to ℕ using k_pos.le
  lift n to ℕ using n_pos.le
  have fits : Fits a b m k n :=
    ⟨by exact_mod_cast aSize, by exact_mod_cast bSize, by exact_mod_cast aSmall.le, by exact_mod_cast bSmall.le,
      by exact_mod_cast outSmall.le, by omega, by omega, by omega⟩
  have ran := matMultiply_fills fits (by omega) (by omega) (by omega) (by exact_mod_cast outSize)
  refine ran.mono fun r holds => ?_
  exact_mod_cast holds.size

/-! ### The last cell -/

theorem tiles_visit {σ : Type} {hi i : ℤ} {body : ℤ → ℤ → σ → Run σ} {s r : σ}
    (ran : forInt 0 hi tileSize (fun t s => do let e ← tileEnd t hi; body t e s) s = .ok r)
    (low : 0 ≤ i) (below : i < hi) : ∃ t e s r, t ≤ i ∧ i < e ∧ body t e s = .ok r := by
  have tile : tileSize = 64 := rfl
  have on : tileSize ∣ i / 64 * 64 - 0 := by
    rw [tile, Int.sub_zero]
    exact Int.dvd_mul_left _ _
  obtain ⟨s, r, visited⟩ := for_visits (by decide) ran (by omega) (by omega) on
  obtain ⟨e, computed, ran⟩ := bind_ok.mp visited
  refine ⟨i / 64 * 64, e, s, r, by omega, ?_, ran⟩
  have post : Post (tileEnd (i / 64 * 64) hi) (· = e) := ⟨e, computed, rfl⟩
  rw [post_tileEnd] at post
  have last := post.2
  split at last <;> omega

theorem offset_fits {i width j p : ℤ} (computed : offset i width j = .ok p) : InInt (i * width + j) := by
  have post : Post (offset i width j) fun _ => True := ⟨p, computed, trivial⟩
  rw [post_offset] at post
  exact post.2.1

theorem area_small {rows width p : ℤ} (computed : offset (rows - 1) width (width - 1) = .ok p) :
    rows * width ≤ 2 ^ 31 := by
  have last := (offset_fits computed).2
  rw [Int.sub_mul, Int.one_mul] at last
  omega

theorem matMultiply_areas {m k n : ℤ} {r : Array α} (m_pos : 0 < m) (k_pos : 0 < k) (n_pos : 0 < n)
    (ran : matMultiply a m k b n out = .ok r) : m * k ≤ 2 ^ 31 ∧ k * n ≤ 2 ^ 31 ∧ m * n ≤ 2 ^ 31 := by
  rw [matMultiply, if_neg (by omega), bind_ok] at ran
  obtain ⟨cleared, -, ran⟩ := ran
  obtain ⟨ii, iEnd, s, r, i_low, i_lt, ran⟩ := tiles_visit ran (by omega) (by omega : m - 1 < m)
  obtain ⟨ll, lEnd, s, r, l_low, l_lt, ran⟩ := tiles_visit ran (by omega) (by omega : k - 1 < k)
  obtain ⟨jj, jEnd, s, r, j_low, j_lt, ran⟩ := tiles_visit ran (by omega) (by omega : n - 1 < n)
  obtain ⟨s, r, ran⟩ := for_visits Int.one_pos ran i_low i_lt (one_dvd _)
  obtain ⟨s, r, ran⟩ := for_visits Int.one_pos ran l_low l_lt (one_dvd _)
  obtain ⟨p, ofA, ran⟩ := bind_ok.mp ran
  obtain ⟨ail, -, ran⟩ := bind_ok.mp ran
  obtain ⟨s, r, ran⟩ := for_visits Int.one_pos ran j_low j_lt (one_dvd _)
  obtain ⟨p, ofOut, ran⟩ := bind_ok.mp ran
  obtain ⟨x, -, ran⟩ := bind_ok.mp ran
  obtain ⟨p, ofB, ran⟩ := bind_ok.mp ran
  exact ⟨area_small ofA, area_small ofB, area_small ofOut⟩

/-- Every cell of the result is the plain fold of its terms. -/
def IsProduct (a : Array α) (m k : ℕ) (b : Array α) (n : ℕ) (r : Array α) : Prop :=
  r.size = m * n ∧ ∀ i j, i < m → j < n → r[i * n + j]? = some (dot a b k n i j k)

theorem Holds.isProduct (holds : Holds a b m k n (fun _ _ => k) out) : IsProduct a m k b n out := by
  refine ⟨holds.size, fun i j i_lt j_lt => ?_⟩
  have bound : i * n + j < out.size := by
    rw [holds.size]
    exact cell_lt i_lt j_lt
  have cell := holds.cell i j i_lt j_lt
  rw [Int.toNat_natCast, Array.getD_eq_getD_getElem?, Array.getElem?_eq_getElem bound, Option.getD_some] at cell
  rw [Array.getElem?_eq_getElem bound, cell]

/-- The tiled loop computes the plain product exactly if no side comes within a tile of
the end of the `int` range and every cell has an `int` index. -/
theorem matMultiply_product_iff (m_pos : 1 ≤ m) (k_pos : 1 ≤ k) (n_pos : 1 ≤ n) (aSize : a.size = m * k)
    (bSize : b.size = k * n) (outSize : out.size = m * n) :
    (∃ r, matMultiply a m k b n out = .ok r ∧ IsProduct a m k b n r) ↔
      (m ≤ 2 ^ 31 - 64 ∧ k ≤ 2 ^ 31 - 64 ∧ n ≤ 2 ^ 31 - 64) ∧
        m * k ≤ 2 ^ 31 ∧ k * n ≤ 2 ^ 31 ∧ m * n ≤ 2 ^ 31 := by
  have tile : tileSize = 64 := rfl
  constructor
  · rintro ⟨r, ran, -⟩
    obtain ⟨m_le, k_le, n_le⟩ := matMultiply_sides (by omega) (by omega) (by omega) ran
    obtain ⟨aSmall, bSmall, outSmall⟩ := matMultiply_areas (by omega) (by omega) (by omega) ran
    exact ⟨⟨by omega, by omega, by omega⟩, by exact_mod_cast aSmall, by exact_mod_cast bSmall,
      by exact_mod_cast outSmall⟩
  · rintro ⟨⟨m_le, k_le, n_le⟩, aSmall, bSmall, outSmall⟩
    have fits : Fits a b m k n := ⟨aSize, bSize, aSmall, bSmall, outSmall, m_le, k_le, n_le⟩
    obtain ⟨r, ran, holds⟩ := matMultiply_fills fits m_pos k_pos n_pos outSize
    exact ⟨r, ran, holds.isProduct⟩

/-- As many numbers as two rows of 65 have, one more in each than a tile. -/
def ascending : Array ℤ := (Array.range 130).map Int.ofNat

theorem matMultiply_product_iff_tiles : ∃ r,
    matMultiply ascending (2 : ℕ) (65 : ℕ) ascending (2 : ℕ) (Array.replicate 4 7) = .ok r ∧
      IsProduct ascending 2 65 ascending 2 r ∧ r[3]? = some 455585 := by
  have size : ascending.size = 130 := by rw [ascending, Array.size_map, Array.size_range]
  obtain ⟨r, ran, product⟩ := (@matMultiply_product_iff ℤ _ _ _ ascending ascending (Array.replicate 4 7) 2 65 2
    (by decide) (by decide) (by decide) size size Array.size_replicate).mpr (by decide)
  refine ⟨r, ran, product, (product.2 1 1 (by decide) (by decide)).trans ?_⟩
  decide +kernel

/-- One row of `INT_MAX` columns, where the end of the last tile overflows. -/
theorem widest_row_overflows :
    ¬ ∀ (m k n : ℕ) (a b out : Array ℤ), 1 ≤ m → 1 ≤ k → 1 ≤ n → a.size = m * k → b.size = k * n → out.size = m * n →
      ∃ r, matMultiply a m k b n out = .ok r ∧ IsProduct a m k b n r := by
  intro law
  obtain ⟨r, ran, -⟩ := law 1 1 (2 ^ 31 - 1) #[1] (Array.replicate (2 ^ 31 - 1) 1) (Array.replicate (2 ^ 31 - 1) 0)
    (by decide) (by decide) (by decide) rfl (by rw [Array.size_replicate, Nat.one_mul])
    (by rw [Array.size_replicate, Nat.one_mul])
  have tile : tileSize = 64 := rfl
  have sides := matMultiply_sides (by decide) (by decide) (by decide) ran
  omega

end PolyglotInfinity.Matrix
