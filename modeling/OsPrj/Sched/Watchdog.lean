import OsPrj.Sched.Accounting

/-!
# The watchdog of wrr.c

`watchdog` counts the ticks of a task in `wrr.timeout` and compares the count with `RLIMIT_RTTIME`
in ticks, rounded up.  The sum in `DIV_ROUND_UP` is one of unsigned words.

* `SetsSchedExp` — a tick sets `sched_exp`, and `watchdogFires`, the test that tells when.
* `Watched` — the ticks and enqueues of a task, with the number of ticks that should count.
* `watchdog_never_early_iff` — **the limits under which the watchdog never fires early**.
-/

namespace Sched

variable {T E : Type} [DecidableEq T]

/-! ## Rounding up -/

/-- `USEC_PER_SEC / HZ` -/
def tickUsec (cfg : Config) : ℕ := 1000000 / cfg.hz

lemma tickUsec_pos {cfg : Config} (hhz : cfg.hz ∣ 1000000) : 0 < tickUsec cfg :=
  Nat.div_pos (Nat.le_of_dvd (by decide) hhz) cfg.hz_pos

/-- More than the limit in ticks, rounded up, is more than the limit. -/
lemma lt_mul_of_roundUp_lt {n d c : ℕ} (hd : 0 < d) (h : (n + d - 1) / d < c) : n < c * d := by
  have hlt : n + d - 1 < c * d := (Nat.div_lt_iff_lt_mul hd).mp h
  omega

/-- If the sum wraps, a limit of a tick or more is rounded to none. -/
lemma roundUp_wrapped {n d W : ℕ} (hn : n < W) (hd : d ≤ n) (hwrap : W ≤ n + d - 1) :
    (n + d - 1) % W / d = 0 := by
  have hmod : (n + d - 1) % W = n + d - 1 - W := by
    rw [Nat.mod_eq_sub_mod hwrap, Nat.mod_eq_of_lt (by omega)]
  rw [hmod]
  exact Nat.div_eq_of_lt (by omega)

/-! ## A tick and an enqueue -/

/-- Write `p->cputime_expires.sched_exp`. -/
def Sys.withSchedExp (s : Sys T E) (p : T) (x : BitVec 64) : Sys T E :=
  s.setAcct { s.acct with schedExp := Function.update s.acct.schedExp p x }

/-- A tick sets `sched_exp`: it has the same value afterwards whatever it was before. -/
def SetsSchedExp (cfg : Config) (s : Sys T E) (p : T) : Prop :=
  ∃ v, ∀ x, (taskTickWrr cfg (s.withSchedExp p x) p).acct.schedExp p = v

/-- The test of `watchdog`. -/
def watchdogFires (cfg : Config) (s : Sys T E) (p : T) : Bool :=
  decide ((s.task p).rlimitRttime ≠ 2 ^ cfg.wordSize - 1) &&
    (watchdogCount cfg (s.task p).rlimitRttime (s.task p).rlimitMaxRttime
      (s.acct.wrr p).timeout).2

section

variable {cfg : Config} {s : Sys T E} {p : T}

lemma updateCurrWrr_acct (s : Sys T E) : (updateCurrWrr s).acct.wrr = s.acct.wrr ∧
    (updateCurrWrr s).acct.schedExp = s.acct.schedExp := by
  rw [updateCurrWrr]
  split_ifs
  · exact ⟨rfl, rfl⟩
  · exact ⟨rfl, rfl⟩

lemma updateCurrWrr_task (s : Sys T E) (p : T) : (updateCurrWrr s).task p = s.task p := by
  rw [updateCurrWrr]
  split_ifs
  · rfl
  · rfl

/-- A write of the time slice leaves the counter alone. -/
lemma setWrr_timeout (s : Sys T E) (p : T) {f : SchedWrrEntity → SchedWrrEntity}
    (hf : ∀ e, (f e).timeout = e.timeout) :
    ((s.setWrr p f).acct.wrr p).timeout = (s.acct.wrr p).timeout := by
  show (Function.update s.acct.wrr p (f (s.acct.wrr p)) p).timeout = _
  rw [Function.update_self, hf]

/-- The end of the tick neither counts nor fires. -/
lemma sliceTickWrr_acct (cfg : Config) (s : Sys T E) (p : T) :
    ((sliceTickWrr cfg s p).acct.wrr p).timeout = (s.acct.wrr p).timeout ∧
      (sliceTickWrr cfg s p).acct.schedExp = s.acct.schedExp := by
  rw [sliceTickWrr]
  split_ifs
  · exact ⟨rfl, rfl⟩
  · generalize nextTimeSliceWrr cfg s p = slice
    exact ⟨setWrr_timeout s p (f := fun e => { e with timeSlice := slice }) fun _ => rfl, rfl⟩
  · rw [expireWrr]
    split_ifs
    · rw [acct_reschedTask, acct_requeueTaskWrr]
      exact ⟨setWrr_timeout s p fun _ => rfl, rfl⟩
    · exact ⟨setWrr_timeout s p fun _ => rfl, rfl⟩

/-- **When a tick sets `sched_exp`.** -/
theorem schedExp_taskTickWrr (cfg : Config) (s : Sys T E) (p : T) :
    (taskTickWrr cfg s p).acct.schedExp =
      if watchdogFires cfg s p then
        Function.update s.acct.schedExp p ((updateCurrWrr s).acct.se p).sumExecRuntime
      else s.acct.schedExp := by
  rw [taskTickWrr, (sliceTickWrr_acct cfg _ p).2, watchdogWrr, watchdogFires,
    updateCurrWrr_task, (updateCurrWrr_acct s).1]
  dsimp only
  by_cases hsoft : (s.task p).rlimitRttime = 2 ^ cfg.wordSize - 1
  · simp [hsoft, (updateCurrWrr_acct s).2]
  · cases (watchdogCount cfg (s.task p).rlimitRttime (s.task p).rlimitMaxRttime
      (s.acct.wrr p).timeout).2 with
    | false => simp [hsoft, Sys.setWrr, (updateCurrWrr_acct s).2]
    | true => simp [hsoft, Sys.setWrr, setSchedExp, Sys.setAcct, (updateCurrWrr_acct s).2]

lemma updateCurrWrr_withSchedExp (s : Sys T E) (p : T) (x : BitVec 64) :
    updateCurrWrr (s.withSchedExp p x) = (updateCurrWrr s).withSchedExp p x := by
  rw [updateCurrWrr, updateCurrWrr, apply_ite (fun s : Sys T E => s.withSchedExp p x)]
  rfl

/-- **A tick sets `sched_exp` if the test holds**, and otherwise leaves it. -/
theorem setsSchedExp_iff (cfg : Config) (s : Sys T E) (p : T) :
    SetsSchedExp cfg s p ↔ watchdogFires cfg s p = true := by
  have htick : ∀ x, (taskTickWrr cfg (s.withSchedExp p x) p).acct.schedExp p =
      if watchdogFires cfg s p then ((updateCurrWrr s).acct.se p).sumExecRuntime else x := by
    intro x
    have hfires : watchdogFires cfg (s.withSchedExp p x) p = watchdogFires cfg s p := rfl
    rw [schedExp_taskTickWrr, hfires, updateCurrWrr_withSchedExp]
    split_ifs
    · exact Function.update_self ..
    · exact Function.update_self p x s.acct.schedExp
  rw [SetsSchedExp]
  constructor
  · rintro ⟨v, hv⟩
    by_contra hfires
    have hzero := htick 0
    have hone := htick 1
    rw [hv, if_neg hfires] at hzero hone
    exact absurd (hzero.symm.trans hone) (by decide)
  · intro hfires
    exact ⟨_, fun x => (htick x).trans (if_pos hfires)⟩

/-- A tick counts while a limit is set. -/
lemma timeout_taskTickWrr (cfg : Config) (s : Sys T E) (p : T) :
    ((taskTickWrr cfg s p).acct.wrr p).timeout =
      if (s.task p).rlimitRttime = 2 ^ cfg.wordSize - 1 then (s.acct.wrr p).timeout
      else ((s.acct.wrr p).timeout + 1) % 2 ^ cfg.wordSize := by
  rw [taskTickWrr, (sliceTickWrr_acct cfg _ p).1, watchdogWrr, updateCurrWrr_task,
    (updateCurrWrr_acct s).1]
  dsimp only
  split_ifs
  · rw [(updateCurrWrr_acct s).1]
  · simp [Sys.setWrr, setSchedExp, Sys.setAcct, watchdogCount]
  · simp [Sys.setWrr, watchdogCount]

/-- An enqueue for a wakeup starts the count again. -/
lemma timeout_enqueueTaskWrr (s : Sys T E) (p : T) (flags : EnqueueFlags) :
    ((enqueueTaskWrr s p flags).acct.wrr p).timeout =
      if flags.wakeup then 0 else (s.acct.wrr p).timeout := by
  have hacct : (enqueueTaskWrr s p flags).acct = (resetTimeoutWrr s p flags).acct := by
    show (dequeueWrrStack (resetTimeoutWrr s p flags) p).acct = _
    exact acct_dequeueWrrStack _ _
  rw [hacct, resetTimeoutWrr]
  split_ifs
  · simp [Sys.setWrr]
  · rfl

end

/-! ## Ticks and enqueues in any order -/

/-- The states of a WRR task `p` under ticks and enqueues in any order, from `s₀` on, with the
number of its ticks since the last enqueue for a wakeup, counted while a limit was set.  Before the
first such enqueue there is a number only if the counter started at `0`. -/
inductive Watched (cfg : Config) (p : T) (s₀ : Sys T E) : Sys T E → Option ℕ → Prop where
  | start : Watched cfg p s₀ s₀ (if (s₀.acct.wrr p).timeout = 0 then some 0 else none)
  | tick {s : Sys T E} {n : Option ℕ} : Watched cfg p s₀ s n →
      Watched cfg p s₀ (taskTickWrr cfg s p)
        (if (s.task p).rlimitRttime = 2 ^ cfg.wordSize - 1 then n else n.map Nat.succ)
  | enqueue {s : Sys T E} {n : Option ℕ} (flags : EnqueueFlags) : Watched cfg p s₀ s n →
      Watched cfg p s₀ (enqueueTaskWrr s p flags) (if flags.wakeup then some 0 else n)
  /-- What else happens, changes of the limits among it, does not write the counter. -/
  | other {s s' : Sys T E} {n : Option ℕ} : Watched cfg p s₀ s n →
      (s'.acct.wrr p).timeout = (s.acct.wrr p).timeout → Watched cfg p s₀ s' n

section

variable {cfg : Config} {p : T} {s₀ s : Sys T E} {soft hard n : ℕ}

/-- `wrr.timeout` is the number of ticks, as a word. -/
theorem Watched.timeout_eq {o : Option ℕ} (h : Watched cfg p s₀ s o) :
    ∀ n ∈ o, (s.acct.wrr p).timeout = n % 2 ^ cfg.wordSize := by
  induction h with
  | start =>
      intro n hn
      split_ifs at hn with hzero
      · obtain rfl := Option.some.inj hn
        rw [hzero, Nat.zero_mod]
      · exact absurd hn (by simp)
  | @tick s o _ ih =>
      intro n hn
      rw [timeout_taskTickWrr]
      split_ifs at hn ⊢
      · exact ih n hn
      · rcases Option.map_eq_some_iff.mp hn with ⟨m, hm, rfl⟩
        rw [ih m hm, Nat.mod_add_mod]
  | @enqueue s o flags _ ih =>
      intro n hn
      rw [timeout_enqueueTaskWrr]
      split_ifs at hn ⊢
      · obtain rfl := Option.some.inj hn
        rw [Nat.zero_mod]
      · exact ih n hn
  | other _ hsame ih =>
      intro n hn
      rw [hsame, ih n hn]

/-! ## Firing early -/

/-- The limits that the sum in `DIV_ROUND_UP` does not take past the last word, those that it takes
there by less than a tick's worth, and no limit. -/
def LimitFits (cfg : Config) (soft hard : ℕ) : Prop :=
  soft = 2 ^ cfg.wordSize - 1 ∨ min soft hard + tickUsec cfg ≤ 2 ^ cfg.wordSize ∨
    min soft hard < tickUsec cfg

instance (cfg : Config) (soft hard : ℕ) : Decidable (LimitFits cfg soft hard) :=
  inferInstanceAs (Decidable (_ ∨ _ ∨ _))

omit [DecidableEq T] in
/-- A watchdog that fires has been counting past the limit, unless the sum wraps. -/
lemma lt_of_fires (hhz : cfg.hz ∣ 1000000) (hfits : LimitFits cfg soft hard)
    (hsoft : (s.task p).rlimitRttime = soft) (hhard : (s.task p).rlimitMaxRttime = hard)
    (htimeout : (s.acct.wrr p).timeout = n % 2 ^ cfg.wordSize)
    (hfires : watchdogFires cfg s p = true) :
    soft ≠ 2 ^ cfg.wordSize - 1 ∧ min soft hard < (n + 1) * tickUsec cfg := by
  have hpos := tickUsec_pos hhz
  rw [watchdogFires, hsoft, hhard, htimeout, Bool.and_eq_true, decide_eq_true_eq, watchdogCount,
    decide_eq_true_eq, Nat.mod_add_mod] at hfires
  rcases hfires with ⟨hlimited, hlt⟩
  change (min soft hard + tickUsec cfg - 1) % 2 ^ cfg.wordSize / tickUsec cfg <
    (n + 1) % 2 ^ cfg.wordSize at hlt
  refine ⟨hlimited, ?_⟩
  rcases hfits with hinf | hnowrap | hsmall
  · exact absurd hinf hlimited
  · rw [Nat.mod_eq_of_lt (by omega)] at hlt
    exact lt_mul_of_roundUp_lt hpos (hlt.trans_le (Nat.mod_le _ _))
  · calc min soft hard < tickUsec cfg := hsmall
      _ ≤ (n + 1) * tickUsec cfg := Nat.le_mul_of_pos_left _ n.succ_pos

omit [DecidableEq T] in
/-- With any other limit the watchdog fires on the first tick, although the limit is a tick or
more. -/
lemma fires_of_not_fits (hsoft : (s.task p).rlimitRttime = soft)
    (hhard : (s.task p).rlimitMaxRttime = hard) (hword : soft < 2 ^ cfg.wordSize)
    (hfits : ¬LimitFits cfg soft hard) (htimeout : (s.acct.wrr p).timeout = 0) :
    watchdogFires cfg s p = true ∧ (0 + 1) * tickUsec cfg ≤ min soft hard := by
  rw [LimitFits, not_or, not_or, not_le, not_lt] at hfits
  rcases hfits with ⟨hlimited, hwrap, htick⟩
  have hmin : min soft hard < 2 ^ cfg.wordSize := (min_le_left soft hard).trans_lt hword
  have hnext : (min soft hard + tickUsec cfg - 1) % 2 ^ cfg.wordSize / tickUsec cfg = 0 :=
    roundUp_wrapped hmin htick (by omega)
  have hone : (0 + 1) % 2 ^ cfg.wordSize = 1 := by
    rw [Nat.mod_eq_of_lt]
    have hpos := Nat.two_pow_pos cfg.wordSize
    omega
  refine ⟨?_, by omega⟩
  rw [watchdogFires, hsoft, hhard, htimeout, watchdogCount, Bool.and_eq_true, decide_eq_true_eq,
    decide_eq_true_eq, hone]
  exact ⟨hlimited, lt_of_eq_of_lt hnext one_pos⟩

/-- **The limits under which the watchdog never fires early**, whatever ticks, enqueues and changes
of limits come before. -/
theorem watchdog_never_early_iff (hhz : cfg.hz ∣ 1000000) (s₀ : Sys T E) (p : T)
    (hword : soft < 2 ^ cfg.wordSize) :
    (∀ s n, Watched cfg p s₀ s (some n) → (s.task p).rlimitRttime = soft →
      (s.task p).rlimitMaxRttime = hard → SetsSchedExp cfg s p →
      soft ≠ 2 ^ cfg.wordSize - 1 ∧ min soft hard < (n + 1) * tickUsec cfg) ↔
    LimitFits cfg soft hard := by
  constructor
  · intro hnever
    by_contra hfits
    -- p wakes up, its limits are set, and the next tick fires
    have hwoken : Watched cfg p s₀ (enqueueTaskWrr s₀ p ⟨true, false⟩) (some 0) :=
      .enqueue ⟨true, false⟩ .start
    have hlimited : Watched cfg p s₀ ((enqueueTaskWrr s₀ p ⟨true, false⟩).setTask p fun t =>
        { t with rlimitRttime := soft, rlimitMaxRttime := hard }) (some 0) := hwoken.other rfl
    have htask := setTask_task_self (enqueueTaskWrr s₀ p ⟨true, false⟩) p fun t =>
      { t with rlimitRttime := soft, rlimitMaxRttime := hard }
    have hsoft := congrArg TaskStruct.rlimitRttime htask
    have hhard := congrArg TaskStruct.rlimitMaxRttime htask
    have hzero := (hlimited.timeout_eq 0 rfl).trans (Nat.zero_mod _)
    rcases fires_of_not_fits hsoft hhard hword hfits hzero with ⟨hfires, hearly⟩
    have hsets := (setsSchedExp_iff cfg _ p).mpr hfires
    exact absurd hearly (not_le.mpr (hnever _ 0 hlimited hsoft hhard hsets).2)
  · intro hfits s n hwatched hsoft hhard hsets
    exact lt_of_fires hhz hfits hsoft hhard (hwatched.timeout_eq n rfl)
      ((setsSchedExp_iff cfg s p).mp hsets)

end

/-- A soft limit of `RLIM_INFINITY - 1` microseconds is passed with the first tick of 10 ms after a
wakeup. -/
theorem watchdog_early : ∃ s : Sys ℕ (SchedClass → List ℕ),
    Watched smallConfig 2 (init (fifoKernel smallConfig) smallBoot) s (some 0) ∧
      (s.task 2).rlimitRttime = 2 ^ 64 - 2 ∧ (s.task 2).rlimitMaxRttime = 2 ^ 64 - 2 ∧
      SetsSchedExp smallConfig s 2 ∧ tickUsec smallConfig = 10000 := by
  refine ⟨(enqueueTaskWrr (init (fifoKernel smallConfig) smallBoot) 2 ⟨true, false⟩).setTask 2
    fun t => { t with rlimitRttime := 2 ^ 64 - 2, rlimitMaxRttime := 2 ^ 64 - 2 },
    .other (.enqueue ⟨true, false⟩ .start) rfl, ?_, ?_, (setsSchedExp_iff _ _ _).mpr ?_, ?_⟩
  · decide
  · decide
  · decide
  · decide

/-- A limit of one second on the same machine. -/
theorem watchdog_never_early_second :
    (∀ s n, Watched smallConfig 2 (init (fifoKernel smallConfig) smallBoot) s (some n) →
      (s.task 2).rlimitRttime = 1000000 → (s.task 2).rlimitMaxRttime = 1000000 →
      SetsSchedExp smallConfig s 2 →
      1000000 ≠ 2 ^ smallConfig.wordSize - 1 ∧
        min 1000000 1000000 < (n + 1) * tickUsec smallConfig) ↔
    LimitFits smallConfig 1000000 1000000 :=
  watchdog_never_early_iff (by decide) _ 2 (by decide)

end Sched
