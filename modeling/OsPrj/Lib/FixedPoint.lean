import Mathlib

/-!
# Fixed-point numbers

The number `x` stands for `x / D`.  Products are rounded to the nearest.

* `mul`, `power` — the product, and the power by repeated squaring; `abs_power_sub_le` — **the power
  is off by half a unit for each factor at most**.
* `mix` — the average of two numbers with weights `e` and `D - e`; it lies between them.
* `mixes_eq_clamp` — **averaging again and again comes to rest where a step is lost in rounding**.
* `abs_mix_power_sub_le` — **one average with the power stands for as many averages**.
-/

namespace FixedPoint

variable {D e x y a b n : ℕ}

/-! ## Rounding -/

/-- `x / D`, rounded to the nearest. -/
def roundDiv (D x : ℕ) : ℕ := (x + D / 2) / D

lemma roundDiv_mono (D : ℕ) (h : x ≤ y) : roundDiv D x ≤ roundDiv D y :=
  Nat.div_le_div_right (Nat.add_le_add_right h _)

lemma roundDiv_mul_self (hD : 0 < D) (x : ℕ) : roundDiv D (D * x) = x := by
  rw [roundDiv, Nat.mul_add_div hD, Nat.div_eq_of_lt (Nat.div_lt_self hD Nat.one_lt_two), add_zero]

/-- Rounding is off by half at most. -/
lemma abs_roundDiv_sub_le (hD : 0 < D) (x : ℕ) : |(roundDiv D x : ℚ) - x / D| ≤ 1 / 2 := by
  have hle : D * roundDiv D x ≤ x + D / 2 := Nat.mul_div_le _ _
  have hlt : x + D / 2 < D * roundDiv D x + D := by
    have hdiv := Nat.lt_mul_div_succ (x + D / 2) hD
    rw [Nat.mul_add, Nat.mul_one] at hdiv
    exact hdiv
  have hle' : (2 * (D * roundDiv D x) : ℚ) ≤ 2 * x + D := by
    exact_mod_cast (by omega : 2 * (D * roundDiv D x) ≤ 2 * x + D)
  have hlt' : (2 * x : ℚ) ≤ 2 * (D * roundDiv D x) + D := by
    exact_mod_cast (by omega : 2 * x ≤ 2 * (D * roundDiv D x) + D)
  have hpos : (0 : ℚ) < D := by exact_mod_cast hD
  rw [show (roundDiv D x : ℚ) - x / D = (D * roundDiv D x - x) / D by field_simp, abs_div,
    abs_of_pos hpos, div_le_iff₀ hpos, abs_le]
  constructor <;> linarith

/-! ## Products and powers -/

/-- The product of `x / D` and `y / D`. -/
def mul (D x y : ℕ) : ℕ := roundDiv D (x * y)

lemma mul_le (hD : 0 < D) (hx : x ≤ D) (hy : y ≤ D) : mul D x y ≤ D := by
  have hle := roundDiv_mono D (Nat.mul_le_mul hx hy)
  rw [roundDiv_mul_self hD] at hle
  exact hle

/-- Half a unit more than `x` may be off.  The errors of the factors add up. -/
lemma abs_mul_sub_le (hD : 0 < D) (hy : y ≤ D) {r s ρ σ : ℚ} (hr : 0 ≤ r) (hr' : r ≤ 1)
    (hx' : |(x : ℚ) - D * r| ≤ ρ - 1 / 2) (hy' : |(y : ℚ) - D * s| ≤ σ - 1 / 2) :
    |(mul D x y : ℚ) - D * (r * s)| ≤ ρ + σ - 1 / 2 := by
  have hpos : (0 : ℚ) < D := by exact_mod_cast hD
  have hround := abs_roundDiv_sub_le hD (x * y)
  push_cast at hround
  have hsplit : (mul D x y : ℚ) - D * (r * s)
      = (mul D x y - x * y / D) + ((x - D * r) * (y / D) + r * (y - D * s)) := by
    field_simp
    ring
  have hfirst : |((x : ℚ) - D * r) * (y / D)| ≤ ρ - 1 / 2 := by
    rw [abs_mul, abs_of_nonneg (by positivity : (0 : ℚ) ≤ y / D)]
    have hone : (y : ℚ) / D ≤ 1 := by
      rw [div_le_one hpos]
      exact_mod_cast hy
    exact (mul_le_of_le_one_right (abs_nonneg _) hone).trans hx'
  have hsecond : |r * ((y : ℚ) - D * s)| ≤ σ - 1 / 2 := by
    rw [abs_mul, abs_of_nonneg hr]
    exact (mul_le_of_le_one_left (abs_nonneg _) hr').trans hy'
  calc |(mul D x y : ℚ) - D * (r * s)|
      ≤ |(mul D x y : ℚ) - x * y / D| + |(x - D * r) * (y / D) + r * (y - D * s)| := by
        rw [hsplit]
        exact abs_add_le _ _
    _ ≤ 1 / 2 + (|(x - D * r) * (y / D)| + |r * (y - D * s)|) :=
        add_le_add hround (abs_add_le _ _)
    _ ≤ ρ + σ - 1 / 2 := by linarith

/-- `result * x ^ n`, by the digits of `n`. -/
def powerLoop (D : ℕ) : ℕ → ℕ → ℕ → ℕ → ℕ
  | 0, result, _, _ => result
  | fuel + 1, result, x, n =>
      let result := if n % 2 = 1 then mul D result x else result
      if n / 2 = 0 then result else powerLoop D fuel result (mul D x x) (n / 2)

/-- `x ^ n`; `fuel` is a bound on the number of the digits of `n`. -/
def power (D fuel x n : ℕ) : ℕ := if n = 0 then D else powerLoop D fuel D x n

lemma powerLoop_le (hD : 0 < D) (fuel : ℕ) {result : ℕ} (hresult : result ≤ D) (hx : x ≤ D)
    (n : ℕ) : powerLoop D fuel result x n ≤ D := by
  induction fuel generalizing result x n with
  | zero => exact hresult
  | succ fuel ih =>
      have hresult' : (if n % 2 = 1 then mul D result x else result) ≤ D := by
        split_ifs
        · exact mul_le hD hresult hx
        · exact hresult
      rw [powerLoop]
      by_cases hzero : n / 2 = 0
      · rw [if_pos hzero]
        exact hresult'
      · rw [if_neg hzero]
        exact ih hresult' (mul_le hD hx hx) _

theorem power_le (hD : 0 < D) (fuel : ℕ) (hx : x ≤ D) (n : ℕ) : power D fuel x n ≤ D := by
  rw [power]
  split_ifs
  · exact le_rfl
  · exact powerLoop_le hD fuel le_rfl hx n

/-- One half for the result, and one for each of the `n` factors. -/
lemma abs_powerLoop_sub_le (hD : 0 < D) (fuel : ℕ) {result : ℕ} {r y ρ ξ : ℚ} (hfuel : n < 2 ^ fuel)
    (hn : 0 < n) (hx : x ≤ D) (hr : 0 ≤ r) (hr' : r ≤ 1) (hy : 0 ≤ y)
    (hy' : y ≤ 1) (hresult : |(result : ℚ) - D * r| ≤ ρ - 1 / 2)
    (hfactor : |(x : ℚ) - D * y| ≤ ξ - 1 / 2) :
    |(powerLoop D fuel result x n : ℚ) - D * (r * y ^ n)| ≤ ρ + n * ξ - 1 / 2 := by
  induction fuel generalizing result x n r y ρ ξ with
  | zero =>
      rw [pow_zero] at hfuel
      omega
  | succ fuel ih =>
      have hsquare := abs_mul_sub_le hD hx hy hy' hfactor hfactor
      have hproduct := abs_mul_sub_le hD hx hr hr' hresult hfactor
      have hhalf : n / 2 < 2 ^ fuel := by
        rw [pow_succ] at hfuel
        omega
      rw [powerLoop]
      by_cases hodd : n % 2 = 1
      · rw [if_pos hodd]
        split_ifs with hzero
        · obtain rfl : n = 1 := by omega
          rw [pow_one, Nat.cast_one, one_mul]
          exact hproduct
        · have hrest := ih hhalf (Nat.pos_of_ne_zero hzero) (mul_le hD hx hx) (mul_nonneg hr hy)
            (mul_le_one₀ hr' hy hy') (mul_nonneg hy hy) (mul_le_one₀ hy' hy hy') hproduct hsquare
          have hn' : n = 2 * (n / 2) + 1 := by omega
          have hpow : r * y * (y * y) ^ (n / 2) = r * y ^ n := by
            conv_rhs => rw [hn', pow_succ, pow_mul, sq]
            ring
          have hcast : (n : ℚ) = 2 * (n / 2 : ℕ) + 1 := by exact_mod_cast hn'
          rw [hpow] at hrest
          rw [hcast]
          linarith
      · have hzero : n / 2 ≠ 0 := by omega
        rw [if_neg hodd, if_neg hzero]
        have hrest := ih hhalf (Nat.pos_of_ne_zero hzero) (mul_le hD hx hx) hr hr'
          (mul_nonneg hy hy) (mul_le_one₀ hy' hy hy') hresult hsquare
        have hn' : n = 2 * (n / 2) := by omega
        have hpow : r * (y * y) ^ (n / 2) = r * y ^ n := by
          conv_rhs => rw [hn', pow_mul, sq]
        have hcast : (n : ℚ) = 2 * (n / 2 : ℕ) := by exact_mod_cast hn'
        rw [hpow] at hrest
        rw [hcast]
        linarith

/-- **The power by repeated squaring is off by half a unit for each factor at most.** -/
theorem abs_power_sub_le (hD : 0 < D) {fuel : ℕ} (hfuel : n < 2 ^ fuel) (hx : x ≤ D) :
    |(power D fuel x n : ℚ) - D * (x / D) ^ n| ≤ n / 2 := by
  have hpos : (0 : ℚ) < D := by exact_mod_cast hD
  rw [power]
  split_ifs with hn
  · subst hn
    simp
  · have hone : (x : ℚ) / D ≤ 1 := by
      rw [div_le_one hpos]
      exact_mod_cast hx
    have hresult : |(D : ℚ) - D * 1| ≤ 1 / 2 - 1 / 2 := by simp
    have hfactor : |(x : ℚ) - D * (x / D)| ≤ 1 / 2 - 1 / 2 := by
      rw [mul_div_cancel₀ _ hpos.ne']
      simp
    have hloop := abs_powerLoop_sub_le hD fuel hfuel (Nat.pos_of_ne_zero hn) hx zero_le_one le_rfl
      (by positivity) hone hresult hfactor
    rw [one_mul] at hloop
    linarith

/-! ## Averages -/

/-- The average of `a` and `b`, where `a` has the weight `e / D`. -/
def mix (D e a b : ℕ) : ℕ := roundDiv D (a * e + b * (D - e))

lemma roundDiv_mul_add (hD : 0 < D) (k x : ℕ) : roundDiv D (D * k + x) = k + roundDiv D x := by
  rw [roundDiv, Nat.add_assoc, Nat.mul_add_div hD, roundDiv]

/-- The average is as near to `b` as `e / D` of the way. -/
lemma mix_of_ge (hD : 0 < D) (he : e ≤ D) (h : b ≤ a) :
    mix D e a b = b + roundDiv D ((a - b) * e) := by
  rcases Nat.exists_eq_add_of_le h with ⟨d, rfl⟩
  rcases Nat.exists_eq_add_of_le he with ⟨f, rfl⟩
  rw [mix, ← roundDiv_mul_add hD, Nat.add_sub_cancel_left, Nat.add_sub_cancel_left]
  congr 1
  ring

lemma mix_of_le (hD : 0 < D) (he : e ≤ D) (h : a ≤ b) :
    mix D e a b = a + roundDiv D ((b - a) * (D - e)) := by
  rcases Nat.exists_eq_add_of_le h with ⟨d, rfl⟩
  rcases Nat.exists_eq_add_of_le he with ⟨f, rfl⟩
  rw [mix, ← roundDiv_mul_add hD, Nat.add_sub_cancel_left, Nat.add_sub_cancel_left]
  congr 1
  ring

lemma roundDiv_mul_le (hD : 0 < D) (d : ℕ) (he : e ≤ D) : roundDiv D (d * e) ≤ d := by
  have hle := roundDiv_mono D (Nat.mul_le_mul_left d he)
  rw [Nat.mul_comm d D, roundDiv_mul_self hD] at hle
  exact hle

/-- The average lies between the two. -/
theorem mix_mem_uIcc (hD : 0 < D) (he : e ≤ D) (a b : ℕ) : mix D e a b ∈ Set.uIcc a b := by
  rcases le_total a b with h | h
  · rw [Set.uIcc_of_le h, mix_of_le hD he h]
    have hle := roundDiv_mul_le hD (b - a) (Nat.sub_le D e)
    exact ⟨Nat.le_add_right _ _, by omega⟩
  · rw [Set.uIcc_of_ge h, mix_of_ge hD he h]
    have hle := roundDiv_mul_le hD (a - b) he
    exact ⟨Nat.le_add_right _ _, by omega⟩

/-- An average that is lost in rounding. -/
lemma mul_dist_le_of_mix_eq (hD : 0 < D) (he : e ≤ D) (h : mix D e a b = a) :
    (D - e) * Nat.dist a b ≤ D / 2 := by
  rcases le_total a b with hab | hab
  · rw [mix_of_le hD he hab, Nat.add_eq_left, roundDiv, Nat.div_eq_zero_iff_lt hD] at h
    rw [Nat.dist_eq_sub_of_le hab, Nat.mul_comm]
    omega
  · rw [mix_of_ge hD he hab] at h
    have hround : roundDiv D ((a - b) * e) = a - b := by omega
    rw [roundDiv, Nat.div_eq_iff hD] at hround
    rw [Nat.dist_eq_sub_of_le_right hab, Nat.sub_mul, Nat.mul_comm D, Nat.mul_comm e]
    omega

/-- Else the average is nearer to `b`. -/
lemma dist_mix_lt (hD : 0 < D) (he : e ≤ D) (h : mix D e a b ≠ a) :
    Nat.dist (mix D e a b) b < Nat.dist a b := by
  have hmem := mix_mem_uIcc hD he a b
  rcases le_total a b with hab | hab
  · rw [Set.uIcc_of_le hab] at hmem
    rw [Nat.dist_eq_sub_of_le hmem.2, Nat.dist_eq_sub_of_le hab]
    have hle := hmem.1
    have hle' := hmem.2
    omega
  · rw [Set.uIcc_of_ge hab] at hmem
    rw [Nat.dist_eq_sub_of_le_right hmem.1, Nat.dist_eq_sub_of_le_right hab]
    have hle := hmem.1
    have hle' := hmem.2
    omega

/-- The averages with one and the same `b`. -/
abbrev mixes (D e b : ℕ) (n a : ℕ) : ℕ := (fun a => mix D e a b)^[n] a

lemma mixes_zero (a : ℕ) : mixes D e b 0 a = a := rfl

lemma mixes_succ (n a : ℕ) : mixes D e b (n + 1) a = mix D e (mixes D e b n a) b :=
  Function.iterate_succ_apply' _ _ _

/-- Every average comes nearer, or they are at rest. -/
lemma dist_mixes_add_le (hD : 0 < D) (he : e ≤ D) (n : ℕ) :
    mix D e (mixes D e b n a) b = mixes D e b n a ∨
      Nat.dist (mixes D e b n a) b + n ≤ Nat.dist a b := by
  induction n with
  | zero => exact .inr le_rfl
  | succ n ih =>
      rw [mixes_succ]
      rcases ih with hrest | hdist
      · exact .inl (by rw [hrest, hrest])
      · by_cases hrest : mix D e (mixes D e b n a) b = mixes D e b n a
        · exact .inl (by rw [hrest, hrest])
        · have hlt := dist_mix_lt hD he hrest
          exact .inr (by omega)

/-- **Averaging comes to rest**, where the next step would be less than half a unit. -/
theorem mixes_settle (hD : 0 < D) (he : e ≤ D) (hn : Nat.dist a b ≤ n) :
    mix D e (mixes D e b n a) b = mixes D e b n a ∧
      (D - e) * Nat.dist (mixes D e b n a) b ≤ D / 2 := by
  have hrest : mix D e (mixes D e b n a) b = mixes D e b n a := by
    rcases dist_mixes_add_le (a := a) (b := b) hD he n with hrest | hdist
    · exact hrest
    · have hzero : Nat.dist (mixes D e b n a) b = 0 := by omega
      rw [Nat.eq_of_dist_eq_zero hzero]
      have hmem := mix_mem_uIcc hD he b b
      rw [Set.uIcc_self] at hmem
      exact hmem
  exact ⟨hrest, mul_dist_le_of_mix_eq hD he hrest⟩

/-- The average grows with `a`. -/
lemma mix_mono (h : x ≤ y) : mix D e x b ≤ mix D e y b :=
  roundDiv_mono D (Nat.add_le_add_right (Nat.mul_le_mul_right e h) _)

lemma mixes_mono (n : ℕ) (h : x ≤ y) : mixes D e b n x ≤ mixes D e b n y := by
  induction n with
  | zero => exact h
  | succ n ih =>
      rw [mixes_succ, mixes_succ]
      exact mix_mono ih

/-- A step of less than half a unit is lost. -/
lemma mix_eq_self (hD : 0 < D) (he : e ≤ D) (h : (D - e) * Nat.dist a b + D / 2 < D) :
    mix D e a b = a := by
  rcases le_total a b with hab | hab
  · rw [Nat.dist_eq_sub_of_le hab, Nat.mul_comm] at h
    rw [mix_of_le hD he hab, roundDiv, Nat.div_eq_of_lt h, add_zero]
  · rw [Nat.dist_eq_sub_of_le_right hab, Nat.sub_mul] at h
    have hmul : e * (a - b) ≤ D * (a - b) := Nat.mul_le_mul_right _ he
    have hround : roundDiv D ((a - b) * e) = a - b := by
      rw [roundDiv, Nat.div_eq_iff hD, Nat.mul_comm (a - b) e, Nat.mul_comm (a - b) D]
      omega
    rw [mix_of_ge hD he hab, hround]
    omega

lemma mixes_eq_self (h : mix D e a b = a) (n : ℕ) : mixes D e b n a = a := by
  induction n with
  | zero => rfl
  | succ n ih => rw [mixes_succ, ih, h]

/-- **Where averaging comes to rest**: at the distance `r` from `b`, or where it started if that is
nearer. -/
theorem mixes_eq_clamp (hD : 0 < D) (he : e ≤ D) {r : ℕ} (hr : (D - e) * r + D / 2 < D)
    (hr' : D / 2 < (D - e) * (r + 1)) (hn : Nat.dist a b ≤ n) :
    mixes D e b n a = max (b - r) (min a (b + r)) := by
  have hrest : ∀ c, Nat.dist c b ≤ r → mixes D e b n c = c := fun c hc =>
    mixes_eq_self (mix_eq_self hD he
      ((Nat.add_le_add_right (Nat.mul_le_mul_left _ hc) _).trans_lt hr)) n
  have hdist : Nat.dist (mixes D e b n a) b ≤ r := by
    by_contra hlt
    have hle := (mixes_settle hD he hn).2
    have hmul : (D - e) * (r + 1) ≤ (D - e) * Nat.dist (mixes D e b n a) b :=
      Nat.mul_le_mul_left (D - e) (not_le.mp hlt)
    omega
  rcases le_total (b + r) a with habove | habove
  · have hmono := mixes_mono (D := D) (e := e) (b := b) n habove
    rw [hrest (b + r) (by rw [Nat.dist]; omega)] at hmono
    rw [Nat.dist] at hdist
    rw [min_eq_right habove, max_eq_right (by omega)]
    omega
  · rw [min_eq_left habove]
    rcases le_total (b - r) a with hbelow | hbelow
    · rw [max_eq_right hbelow]
      exact hrest a (by rw [Nat.dist]; omega)
    · have hmono := mixes_mono (D := D) (e := e) (b := b) n hbelow
      rw [hrest (b - r) (by rw [Nat.dist]; omega)] at hmono
      rw [Nat.dist] at hdist
      rw [max_eq_left hbelow]
      omega

/-! ## Many averages at once -/

lemma abs_mix_sub_le (hD : 0 < D) (he : e ≤ D) (a b : ℕ) :
    |(mix D e a b : ℚ) - (b + (a - b) * (e / D))| ≤ 1 / 2 := by
  have hpos : (0 : ℚ) < D := by exact_mod_cast hD
  have hround := abs_roundDiv_sub_le hD (a * e + b * (D - e))
  push_cast [Nat.cast_sub he] at hround
  have hexact : ((a : ℚ) * e + b * (D - e)) / D = b + (a - b) * (e / D) := by
    field_simp
    ring
  rw [hexact] at hround
  exact hround

/-- The averages are off by what a geometric series sums up to. -/
lemma abs_mixes_sub_le (he : e < D) (n : ℕ) :
    |(mixes D e b n a : ℚ) - (b + (a - b) * (e / D) ^ n)| ≤ D / (2 * (D - e)) := by
  have hD : 0 < D := Nat.zero_lt_of_lt he
  have hpos : (0 : ℚ) < D := by exact_mod_cast hD
  have hgap : (0 : ℚ) < D - e := by
    rw [sub_pos]
    exact_mod_cast he
  induction n with
  | zero =>
      rw [mixes_zero, pow_zero, mul_one, add_sub_cancel, sub_self, abs_zero]
      positivity
  | succ n ih =>
      have hstep := abs_mix_sub_le hD he.le (mixes D e b n a) b
      have hsplit : (mixes D e b (n + 1) a : ℚ) - (b + (a - b) * (e / D) ^ (n + 1))
          = (mix D e (mixes D e b n a) b - (b + (mixes D e b n a - b) * (e / D)))
            + (mixes D e b n a - (b + (a - b) * (e / D) ^ n)) * (e / D) := by
        rw [mixes_succ]
        ring
      have hscaled : |((mixes D e b n a : ℚ) - (b + (a - b) * (e / D) ^ n)) * (e / D)|
          ≤ D / (2 * (D - e)) * (e / D) := by
        rw [abs_mul, abs_of_nonneg (by positivity : (0 : ℚ) ≤ e / D)]
        exact mul_le_mul_of_nonneg_right ih (by positivity)
      calc |(mixes D e b (n + 1) a : ℚ) - (b + (a - b) * (e / D) ^ (n + 1))|
          ≤ 1 / 2 + D / (2 * (D - e)) * (e / D) := by
            rw [hsplit]
            exact (abs_add_le _ _).trans (add_le_add hstep hscaled)
        _ = D / (2 * (D - e)) := by
            field_simp
            ring

/-- **One average with the power stands for `n` averages**, but for rounding. -/
theorem abs_mix_power_sub_le {fuel : ℕ} (hfuel : n < 2 ^ fuel) (he : e < D) :
    |(mix D (power D fuel e n) a b : ℚ) - mixes D e b n a|
      ≤ 1 / 2 + |(a : ℚ) - b| * (n / (2 * D)) + D / (2 * (D - e)) := by
  have hD : 0 < D := Nat.zero_lt_of_lt he
  have hpos : (0 : ℚ) < D := by exact_mod_cast hD
  have hpower := abs_power_sub_le hD hfuel he.le
  have hmix := abs_mix_sub_le hD (power_le hD fuel he.le n) a b
  have hmixes := abs_mixes_sub_le (a := a) (b := b) he n
  have hweight : |((a : ℚ) - b) * (power D fuel e n / D - (e / D) ^ n)|
      ≤ |(a : ℚ) - b| * (n / (2 * D)) := by
    rw [abs_mul]
    refine mul_le_mul_of_nonneg_left ?_ (abs_nonneg _)
    have hscale : (power D fuel e n : ℚ) / D - (e / D) ^ n
        = (power D fuel e n - D * (e / D) ^ n) / D := by
      field_simp
    rw [hscale, abs_div, abs_of_pos hpos, div_le_div_iff₀ hpos (by positivity)]
    nlinarith
  have hsplit : (mix D (power D fuel e n) a b : ℚ) - mixes D e b n a
      = (mix D (power D fuel e n) a b - (b + (a - b) * (power D fuel e n / D)))
        + ((a - b) * (power D fuel e n / D - (e / D) ^ n)
          - (mixes D e b n a - (b + (a - b) * (e / D) ^ n))) := by
    ring
  calc |(mix D (power D fuel e n) a b : ℚ) - mixes D e b n a|
      ≤ 1 / 2 + (|(a : ℚ) - b| * (n / (2 * D)) + D / (2 * (D - e))) := by
        rw [hsplit]
        exact (abs_add_le _ _).trans (add_le_add hmix
          ((abs_sub _ _).trans (add_le_add hweight hmixes)))
    _ = 1 / 2 + |(a : ℚ) - b| * (n / (2 * D)) + D / (2 * (D - e)) := by ring

end FixedPoint
