import OsPrj.Lib.FixedPoint
import OsPrj.Load.Model

/-!
# The averages

`calc_load` mixes fixed-point numbers, as long as they fit.

* `calc_load_rests` — **with a constant load each average comes to rest, but 6, 30 or 93 of
  2048 off**: what is still missing is lost in rounding.
* `calc_load_n_agrees` — **the catch-up over `n` intervals agrees with `n` samples**, but for
  rounding.
-/

namespace Load

open FixedPoint

/-- The largest load that `calc_load` computes with. -/
def maxLoad (w : ℕ) : ℕ := 2 ^ (w - fshift) - 1

/-- How far from a constant load the averages come to rest. -/
def rest : Fin 3 → ℕ := ![6, 30, 93]

lemma exps_lt (i : Fin 3) : exps i < fixed1 := by
  fin_cases i <;> decide

lemma exps_rest (i : Fin 3) : (fixed1 - exps i) * rest i + fixed1 / 2 < fixed1 ∧
    fixed1 / 2 < (fixed1 - exps i) * (rest i + 1) := by
  fin_cases i <;> decide

section

variable {w : ℕ} {load active exp x : BitVec w}

lemma two_pow_le (hw : 32 ≤ w) : 2 ^ 32 ≤ 2 ^ w := Nat.pow_le_pow_right two_pos hw

/-- The sums of `calc_load` fit. -/
lemma mul_add_lt (hw : 32 ≤ w) {n : ℕ} (hn : n ≤ maxLoad w) :
    n * fixed1 + fixed1 / 2 < 2 ^ w := by
  have hsplit : 2 ^ (w - fshift) * 2 ^ fshift = 2 ^ w := by
    rw [← pow_add]
    congr 1
    rw [fshift]
    omega
  have hpos : 0 < 2 ^ (w - fshift) := Nat.two_pow_pos _
  have hfixed : 2 ^ fshift = fixed1 := by decide
  have hle : (n + 1) * fixed1 ≤ 2 ^ w := by
    rw [← hsplit, hfixed]
    refine Nat.mul_le_mul_right _ ?_
    rw [maxLoad] at hn
    omega
  rw [Nat.add_mul, one_mul] at hle
  have hhalf : fixed1 / 2 < fixed1 := by decide
  omega

lemma toNat_ofNat_of_le (hw : 32 ≤ w) {n : ℕ} (hn : n ≤ fixed1) :
    (BitVec.ofNat w n).toNat = n := by
  have hpow := two_pow_le hw
  rw [BitVec.toNat_ofNat]
  refine Nat.mod_eq_of_lt (lt_of_lt_of_le ?_ hpow)
  exact hn.trans_lt (by decide)

/-- **`calc_load` is the average of fixed-point numbers.** -/
theorem toNat_calcLoad (hw : 32 ≤ w) (hexp : exp.toNat ≤ fixed1) (hload : load.toNat ≤ maxLoad w)
    (hactive : active.toNat ≤ maxLoad w) :
    (calcLoad load exp active).toNat = mix fixed1 exp.toNat load.toNat active.toNat := by
  have hfixed := toNat_ofNat_of_le hw (le_refl fixed1)
  have hhalf : (BitVec.ofNat w (1 <<< (fshift - 1))).toNat = fixed1 / 2 :=
    toNat_ofNat_of_le hw (by decide)
  have hsub : (BitVec.ofNat w fixed1 - exp).toNat = fixed1 - exp.toNat := by
    rw [BitVec.toNat_sub_of_le, hfixed]
    rw [BitVec.le_def, hfixed]
    exact hexp
  have hfits := mul_add_lt hw (max_le hload hactive)
  have hsum : load.toNat * exp.toNat + active.toNat * (fixed1 - exp.toNat)
      ≤ max load.toNat active.toNat * fixed1 := by
    calc load.toNat * exp.toNat + active.toNat * (fixed1 - exp.toNat)
        ≤ max load.toNat active.toNat * exp.toNat
          + max load.toNat active.toNat * (fixed1 - exp.toNat) :=
          Nat.add_le_add (Nat.mul_le_mul_right _ (le_max_left _ _))
            (Nat.mul_le_mul_right _ (le_max_right _ _))
      _ = max load.toNat active.toNat * fixed1 := by
          rw [← Nat.mul_add, Nat.add_sub_cancel' hexp]
  rw [calcLoad, BitVec.toNat_ushiftRight, BitVec.toNat_add, BitVec.toNat_add, BitVec.toNat_mul,
    BitVec.toNat_mul, hsub, hhalf, Nat.mod_eq_of_lt (a := load.toNat * exp.toNat) (by omega),
    Nat.mod_eq_of_lt (a := active.toNat * _) (by omega),
    Nat.mod_eq_of_lt (a := load.toNat * exp.toNat + _) (by omega), Nat.mod_eq_of_lt (by omega),
    Nat.shiftRight_eq_div_pow]
  rfl

/-- An average is no larger than the larger of the two. -/
lemma calcLoad_le (hw : 32 ≤ w) (hexp : exp.toNat ≤ fixed1) {n : ℕ} (hn : n ≤ maxLoad w)
    (hload : load.toNat ≤ n) (hactive : active.toNat ≤ n) :
    (calcLoad load exp active).toNat ≤ n := by
  rw [toNat_calcLoad hw hexp (hload.trans hn) (hactive.trans hn)]
  have hmem := mix_mem_uIcc (by decide : 0 < fixed1) hexp load.toNat active.toNat
  rcases Set.mem_uIcc.mp hmem with h | h
  · exact h.2.trans hactive
  · exact h.2.trans hload

/-- The rounded product of `fixed_power_int`. -/
lemma toNat_mul_fixed (hw : 32 ≤ w) {y : BitVec w} (hx : x.toNat ≤ fixed1)
    (hy : y.toNat ≤ fixed1) :
    ((x * y + BitVec.ofNat w (1 <<< (fshift - 1))) >>> fshift).toNat
      = FixedPoint.mul fixed1 x.toNat y.toNat := by
  have hpow := two_pow_le hw
  have hhalf : (BitVec.ofNat w (1 <<< (fshift - 1))).toNat = fixed1 / 2 :=
    toNat_ofNat_of_le hw (by decide)
  have hmul : x.toNat * y.toNat ≤ fixed1 * fixed1 := Nat.mul_le_mul hx hy
  have hfits : fixed1 * fixed1 + fixed1 / 2 < 2 ^ 32 := by decide
  rw [BitVec.toNat_ushiftRight, BitVec.toNat_add, BitVec.toNat_mul, hhalf,
    Nat.mod_eq_of_lt (a := x.toNat * y.toNat) (by omega), Nat.mod_eq_of_lt (by omega),
    Nat.shiftRight_eq_div_pow]
  rfl

lemma toNat_fixedPowerLoop (hw : 32 ≤ w) (fuel : ℕ) {result : BitVec w}
    (hresult : result.toNat ≤ fixed1) (hx : x.toNat ≤ fixed1) (n : BitVec 32) :
    (fixedPowerLoop fshift fuel result x n).toNat
      = powerLoop fixed1 fuel result.toNat x.toNat n.toNat := by
  induction fuel generalizing result x n with
  | zero => rfl
  | succ fuel ih =>
      have hD : 0 < fixed1 := by decide
      have hodd : n &&& 1 = 1 ↔ n.toNat % 2 = 1 := by
        rw [← BitVec.toNat_inj, BitVec.toNat_and]
        change n.toNat &&& 1 = 1 ↔ _
        rw [Nat.and_one_is_mod]
      have hhalf : (n >>> 1).toNat = n.toNat / 2 := by
        rw [BitVec.toNat_ushiftRight, Nat.shiftRight_eq_div_pow, pow_one]
      have hzero : n >>> 1 = 0 ↔ n.toNat / 2 = 0 := by
        rw [← BitVec.toNat_inj, hhalf]
        rfl
      have hsquare := toNat_mul_fixed hw hx hx
      have hsquare' : ((x * x + BitVec.ofNat w (1 <<< (fshift - 1))) >>> fshift).toNat ≤ fixed1 :=
        hsquare.trans_le (FixedPoint.mul_le hD hx hx)
      have hproduct := toNat_mul_fixed hw hresult hx
      rw [fixedPowerLoop, powerLoop]
      by_cases hn : n &&& 1 = 1
      · rw [if_pos hn, if_pos (hodd.mp hn)]
        by_cases hlast : n >>> 1 = 0
        · rw [if_pos hlast, if_pos (hzero.mp hlast), hproduct]
        · rw [if_neg hlast, if_neg (mt hzero.mpr hlast),
            ih (hproduct.trans_le (FixedPoint.mul_le hD hresult hx)) hsquare', hproduct, hsquare,
            hhalf]
      · rw [if_neg hn, if_neg (mt hodd.mpr hn)]
        by_cases hlast : n >>> 1 = 0
        · rw [if_pos hlast, if_pos (hzero.mp hlast)]
        · rw [if_neg hlast, if_neg (mt hzero.mpr hlast), ih hresult hsquare', hsquare, hhalf]

/-- **`fixed_power_int` is the power of a fixed-point number.** -/
theorem toNat_fixedPowerInt (hw : 32 ≤ w) (hx : x.toNat ≤ fixed1) (n : BitVec 32) :
    (fixedPowerInt x fshift n).toNat = power fixed1 32 x.toNat n.toNat := by
  have hone : (BitVec.ofNat w (1 <<< fshift)).toNat = fixed1 := toNat_ofNat_of_le hw le_rfl
  have hzero : n = 0 ↔ n.toNat = 0 := by
    rw [← BitVec.toNat_inj]
    rfl
  rw [fixedPowerInt, power]
  by_cases hn : n = 0
  · rw [if_pos hn, if_pos (hzero.mp hn), hone]
  · rw [if_neg hn, if_neg (mt hzero.mpr hn), toNat_fixedPowerLoop hw 32 hone.le hx, hone]

/-! ## Samples -/

/-- `n` samples of `avenrun[i]` with the same load. -/
def samples (i : Fin 3) (active : BitVec w) (n : ℕ) (load : BitVec w) : BitVec w :=
  (fun load => calcLoad load (BitVec.ofNat w (exps i)) active)^[n] load

lemma samples_succ (i : Fin 3) (active : BitVec w) (n : ℕ) (load : BitVec w) :
    samples i active (n + 1) load
      = calcLoad (samples i active n load) (BitVec.ofNat w (exps i)) active :=
  Function.iterate_succ_apply' _ _ _

/-- They are averages of fixed-point numbers. -/
lemma toNat_samples (hw : 32 ≤ w) (i : Fin 3) (hload : load.toNat ≤ maxLoad w)
    (hactive : active.toNat ≤ maxLoad w) (n : ℕ) :
    (samples i active n load).toNat = mixes fixed1 (exps i) active.toNat n load.toNat ∧
      (samples i active n load).toNat ≤ maxLoad w := by
  have hexp : (BitVec.ofNat w (exps i)).toNat = exps i := toNat_ofNat_of_le hw (exps_lt i).le
  induction n with
  | zero => exact ⟨rfl, hload⟩
  | succ n ih =>
      have hexp' := hexp.trans_le (exps_lt i).le
      rw [samples_succ]
      refine ⟨?_, calcLoad_le hw hexp' le_rfl ih.2 hactive⟩
      rw [toNat_calcLoad hw hexp' ih.2 hactive, hexp, ih.1, mixes_succ]

/-- **With a constant load an average comes to rest** within as many samples as it is away, and
stays there: 6, 30 or 93 above the load or below it, or where it was if that is nearer. -/
theorem calc_load_rests (cfg : Config) (i : Fin 3) {load active : BitVec cfg.wordSize} {n : ℕ}
    (hload : load.toNat ≤ maxLoad cfg.wordSize) (hactive : active.toNat ≤ maxLoad cfg.wordSize)
    (hn : Nat.dist load.toNat active.toNat ≤ n) :
    (samples i active n load).toNat
      = max (active.toNat - rest i) (min load.toNat (active.toNat + rest i)) := by
  rw [(toNat_samples cfg.wordSize_ge i hload hactive n).1]
  exact mixes_eq_clamp (by decide) (exps_lt i).le (exps_rest i).1 (exps_rest i).2 hn

/-- On an idle machine the third average stays at 0.05. -/
theorem calc_load_rests_idle : (samples 2 (0 : BitVec 32) 2048 2048).toNat = 93 := by
  have hload : (2048 : BitVec smallBuild.wordSize).toNat ≤ maxLoad smallBuild.wordSize := by decide
  have hactive : (0 : BitVec smallBuild.wordSize).toNat ≤ maxLoad smallBuild.wordSize := by decide
  exact (calc_load_rests smallBuild 2 hload hactive (by decide)).trans (by decide)

/-- A weight of `calc_load_n`. -/
lemma toNat_fixedPowerInt_exps_le (hw : 32 ≤ w) (i : Fin 3) (n : BitVec 32) :
    (fixedPowerInt (BitVec.ofNat w (exps i)) fshift n).toNat ≤ fixed1 := by
  have hexp := (toNat_ofNat_of_le hw (exps_lt i).le).trans_le (exps_lt i).le
  rw [toNat_fixedPowerInt hw hexp]
  exact power_le (by decide) 32 hexp _

/-- **The catch-up agrees with the samples that were missed**, but for half a unit, half a unit of
the weight for each sample, and the rounding of the samples. -/
theorem calc_load_n_agrees (cfg : Config) (i : Fin 3) {load active : BitVec cfg.wordSize}
    (n : BitVec 32) (hload : load.toNat ≤ maxLoad cfg.wordSize)
    (hactive : active.toNat ≤ maxLoad cfg.wordSize) :
    |((calcLoadN load (BitVec.ofNat _ (exps i)) active n).toNat : ℚ)
        - (samples i active n.toNat load).toNat|
      ≤ 1 / 2 + |(load.toNat : ℚ) - active.toNat| * (n.toNat / (2 * fixed1))
        + fixed1 / (2 * (fixed1 - exps i)) := by
  have hw := cfg.wordSize_ge
  have hexp : (BitVec.ofNat cfg.wordSize (exps i)).toNat = exps i :=
    toNat_ofNat_of_le hw (exps_lt i).le
  have hpower := toNat_fixedPowerInt hw (hexp.trans_le (exps_lt i).le) n
  rw [hexp] at hpower
  rw [calcLoadN, toNat_calcLoad hw (toNat_fixedPowerInt_exps_le hw i n) hload hactive, hpower,
    (toNat_samples hw i hload hactive n.toNat).1]
  exact abs_mix_power_sub_le n.isLt (exps_lt i)

/-- Five intervals in which nothing ran. -/
theorem calc_load_n_agrees_five :
    |((calcLoadN 2048 (BitVec.ofNat 32 (exps 0)) (0 : BitVec 32) 5).toNat : ℚ)
        - (samples 0 (0 : BitVec 32) 5 2048).toNat|
      ≤ 1 / 2 + |((2048 : ℕ) : ℚ) - (0 : ℕ)| * ((5 : ℕ) / (2 * fixed1))
        + fixed1 / (2 * (fixed1 - exps 0)) := by
  have hload : (2048 : BitVec smallBuild.wordSize).toNat ≤ maxLoad smallBuild.wordSize := by decide
  have hactive : (0 : BitVec smallBuild.wordSize).toNat ≤ maxLoad smallBuild.wordSize := by decide
  exact calc_load_n_agrees smallBuild 0 5 hload hactive

end

end Load
