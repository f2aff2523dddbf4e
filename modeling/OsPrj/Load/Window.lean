import OsPrj.Load.Average
import OsPrj.Load.Deltas
import Mathlib.Tactic.Abel

/-!
# What a sample counts

A processor that stops its tick while the window of a sample is open must not take back what it has
just been counted for, and so `calc_load_enter_idle` writes to the other counter then, until
`calc_global_nohz` flips the index.  Here the functions are single steps, and the time passes
between the calls of `calc_global_load`.

* `Sampler.step` — what is meant, over times that are numbers: for each processor the load that the
  next sample counts and the load that has been folded last, and when this and the sample are due.
* `Sampler.next_run` — **no interval is left out**: the samples and what is made up for with them are
  all that have passed.
* `Shows.step` — **each function does what is meant**, also when the jiffies wrap around.
* `calc_global_load_samples` — **the averages are those of the samples**, in every run.
-/

namespace Load

/-! ## What is meant -/

/-- A sample of the loads of the processors, and how many intervals are made up for with it. -/
structure Sample (M : Type) where
  tasks : M
  missed : Option ℕ

/-- The times are numbers, which do not wrap around. -/
structure Sampler (C M : Type) where
  /-- what the processors are doing -/
  load : C → M
  /-- what has been folded -/
  fresh : C → M
  /-- what the next sample counts -/
  last : C → M
  now : ℤ
  /-- when the window of the next sample opens -/
  next : ℤ
  /-- when a processor is to fold its load -/
  due : C → ℤ
  samples : List (Sample M)

/-- The functions; `timer` is `calc_global_load` after as many ticks. -/
inductive Op (C M : Type) where
  | setLoad (c : C) (nrRunning nrUninterruptible : M)
  | accountActive (c : C)
  | enterIdle (c : C)
  | exitIdle (c : C)
  | timer (ticks : ℕ)

/-- The intervals that are made up for when the time is `lag` past the opening of a window. -/
def missedAfter (cfg : Config) (lag : ℤ) : Option ℕ :=
  if lag < 10 then none else some (1 + (lag - 10).toNat / loadFreq cfg)

section

variable {C M : Type} [DecidableEq C] [AddCommGroup M]

/-- The next sample counts the change. -/
def Sampler.count (a : Sampler C M) (c : C) : Sampler C M :=
  { a with
    fresh := Function.update a.fresh c (a.load c)
    last := Function.update a.last c (a.last c + (a.load c - a.fresh c)) }

/-- The sample after the next one counts the change. -/
def Sampler.defer (a : Sampler C M) (c : C) : Sampler C M :=
  { a with fresh := Function.update a.fresh c (a.load c) }

def Sampler.setDue (a : Sampler C M) (c : C) (time : ℤ) : Sampler C M :=
  { a with due := Function.update a.due c time }

/-- The processor is to fold its load, as words of `w` bits tell the time. -/
def Sampler.isDue (w : ℕ) (a : Sampler C M) (c : C) : Bool :=
  decide (0 ≤ (BitVec.ofInt w (a.now - a.due c)).toInt)

omit [DecidableEq C] [AddCommGroup M] in
/-- A processor is due from its time on, for half of the range of the words. -/
lemma Sampler.isDue_iff {w : ℕ} (hw : 0 < w) {a : Sampler C M} {c : C}
    (hge : -2 ^ (w - 1) ≤ a.now - a.due c) (hlt : a.now - a.due c < 2 ^ (w - 1)) :
    a.isDue w c = true ↔ a.due c ≤ a.now := by
  rw [isDue, decide_eq_true_iff, BitVec.toInt_ofInt_eq_self hw hge hlt]
  exact sub_nonneg

variable [Fintype C]

/-- The sample is taken, and the intervals that have passed are made up for. -/
def Sampler.take (cfg : Config) (a : Sampler C M) (now : ℤ) : Sampler C M :=
  let next := a.next + loadFreq cfg
  let missed := missedAfter cfg (now - next)
  { a with
    last := a.fresh
    now := now
    next := next + missed.getD 0 * loadFreq cfg
    samples := a.samples ++ [⟨∑ c, a.last c, missed⟩] }

/-- A sample is taken ten ticks after its window has opened. -/
def Sampler.timer (cfg : Config) (a : Sampler C M) (ticks : ℕ) : Sampler C M :=
  if a.now + ticks < a.next + 10 then { a with now := a.now + ticks }
  else a.take cfg (a.now + ticks)

/-- What is meant by the functions. -/
def Sampler.step (cfg : Config) (w : ℕ) (a : Sampler C M) : Op C M → Sampler C M
  | .setLoad c nrRunning nrUninterruptible =>
      { a with load := Function.update a.load c (nrRunning + nrUninterruptible) }
  | .accountActive c =>
      if a.isDue w c then (a.count c).setDue c (a.due c + loadFreq cfg) else a
  -- from the opening of the window on the change is for the next one
  | .enterIdle c => if a.now < a.next then a.count c else a.defer c
  | .exitIdle c =>
      if a.isDue w c then
        a.setDue c (if a.now < a.next + 10 then a.next + loadFreq cfg else a.next)
      else a
  | .timer ticks => a.timer cfg ticks

def Sampler.run (cfg : Config) (w : ℕ) (a : Sampler C M) (ops : List (Op C M)) : Sampler C M :=
  ops.foldl (Sampler.step cfg w) a

/-- At the time `now` nothing is running, and there has been no sample. -/
def Sampler.start (cfg : Config) (now : ℤ) : Sampler C M where
  load := 0
  fresh := 0
  last := 0
  now := now
  next := now + loadFreq cfg
  due := fun _ => now + loadFreq cfg
  samples := []

/-- A timer that is held up over two windows makes up for them. -/
example : (Sampler.run smallBuild 32 (.start smallBuild 0) [.timer 1600] :
    Sampler Bool (BitVec 32)).samples = [⟨0, some 2⟩] := rfl

lemma sum_update (f : C → M) (c : C) (x : M) :
    ∑ d, Function.update f c x d = ∑ d, f d + (x - f c) := by
  have hrest : ∀ d ∈ Finset.univ.erase c, Function.update f c x d = f d := fun d hd =>
    Function.update_of_ne (Finset.ne_of_mem_erase hd) ..
  rw [← Finset.add_sum_erase _ _ (Finset.mem_univ c),
    ← Finset.add_sum_erase _ f (Finset.mem_univ c), Finset.sum_congr rfl hrest,
    Function.update_self]
  abel

lemma Sampler.sum_count_last (a : Sampler C M) (c : C) :
    ∑ d, (a.count c).last d = ∑ d, a.last d + (a.load c - a.fresh c) := by
  rw [count, sum_update]
  abel

lemma Sampler.sum_defer (a : Sampler C M) (c : C) :
    ∑ d, ((a.defer c).fresh d - a.last d)
      = ∑ d, (a.fresh d - a.last d) + (a.load c - a.fresh c) := by
  rw [Finset.sum_sub_distrib, Finset.sum_sub_distrib, defer, sum_update]
  abel

lemma Sampler.sum_count_deferred (a : Sampler C M) (c : C) :
    ∑ d, ((a.count c).fresh d - (a.count c).last d) = ∑ d, (a.fresh d - a.last d) := by
  rw [Finset.sum_sub_distrib, Finset.sum_sub_distrib, sum_count_last, count, sum_update]
  abel

end

/-! ## The machine -/

section

variable {w : ℕ} {C : Type} [DecidableEq C]

/-- Time passes, and the timer calls `calc_global_load`. -/
def globalLoadAfter (cfg : Config) (m : Mem w C) (ticks : ℕ) : Mem w C :=
  calcGlobalLoad cfg { m with jiffies := m.jiffies + BitVec.ofNat w ticks }

def step (cfg : Config) (m : Mem w C) : Op C (BitVec w) → Mem w C
  | .setLoad c nrRunning nrUninterruptible =>
      m.setRq c { m.rq c with nrRunning, nrUninterruptible }
  | .accountActive c => calcLoadAccountActive cfg m c
  | .enterIdle c => calcLoadEnterIdle m c
  | .exitIdle c => calcLoadExitIdle cfg m c
  | .timer ticks => globalLoadAfter cfg m ticks

/-- How far the time is past the opening of the window. -/
def lag (m : Mem w C) : ℤ := (m.jiffies - m.calcLoadUpdate).toInt

/-- The timer is not held up for half of the range of the jiffies. -/
def Op.Allowed (m : Mem w C) : Op C (BitVec w) → Prop
  | .timer ticks => lag m + ticks < 2 ^ (w - 1)
  | _ => True

instance (m : Mem w C) : ∀ op : Op C (BitVec w), Decidable (op.Allowed m)
  | .timer ticks => inferInstanceAs (Decidable (lag m + ticks < 2 ^ (w - 1)))
  | .setLoad .. | .accountActive _ | .enterIdle _ | .exitIdle _ => isTrue trivial

/-- What the intervals that are made up for make of `avenrun[i]`. -/
def caughtUp (i : Fin 3) (load tasks : BitVec w) : Option ℕ → BitVec w
  | none => load
  | some n => calcLoadN load (BitVec.ofNat w (exps i)) (activeLoad tasks) (BitVec.ofNat 32 n)

/-- What a sample makes of `avenrun[i]`. -/
def average (i : Fin 3) (load : BitVec w) (s : Sample (BitVec w)) : BitVec w :=
  caughtUp i (calcLoad load (BitVec.ofNat w (exps i)) (activeLoad s.tasks)) s.tasks s.missed

variable {m : Mem w C} {cfg : Config}

lemma timeBefore_iff (x y : BitVec w) : timeBefore x y = true ↔ (x - y).toInt < 0 :=
  decide_eq_true_iff

lemma ofInt_sub (x y : ℤ) : BitVec.ofInt w (x - y) = BitVec.ofInt w x - BitVec.ofInt w y := by
  rw [sub_eq_add_neg, BitVec.ofInt_add, BitVec.ofInt_neg, ← sub_eq_add_neg]

/-- The range of differences of times. -/
lemma toInt_ofInt (hw : 32 ≤ w) {x : ℤ} (hx : -2 ^ 31 ≤ x) (hx' : x < 2 ^ (w - 1)) :
    (BitVec.ofInt w x).toInt = x := by
  have hpow : (2 : ℤ) ^ 31 ≤ 2 ^ (w - 1) := pow_le_pow_right₀ (by decide) (by omega)
  exact BitVec.toInt_ofInt_eq_self (by omega) (by omega) hx'

/-- Words tell which of two times is the earlier one, in half of their range. -/
lemma timeBefore_ofInt (hw : 32 ≤ w) {x y : ℤ} (hge : -2 ^ 31 ≤ x - y)
    (hlt : x - y < 2 ^ (w - 1)) :
    timeBefore (BitVec.ofInt w x) (BitVec.ofInt w y) = true ↔ x < y := by
  rw [timeBefore_iff, ← ofInt_sub, toInt_ofInt hw hge hlt]
  exact sub_neg

lemma loadFreq_bounds (cfg : Config) : 10 < (loadFreq cfg : ℤ) ∧ (loadFreq cfg : ℤ) ≤ 50001 := by
  have hge := cfg.hz_ge
  have hle := cfg.hz_le
  rw [loadFreq]
  omega

/-- No interval is left out: the next window has not been closed for ten ticks. -/
lemma missedAfter_bounds (cfg : Config) {lag : ℤ} (hge : -loadFreq cfg ≤ lag) :
    -loadFreq cfg ≤ lag - (missedAfter cfg lag).getD 0 * loadFreq cfg ∧
      lag - (missedAfter cfg lag).getD 0 * loadFreq cfg < 10 := by
  have hfreq := loadFreq_bounds cfg
  rw [missedAfter]
  split_ifs with hlag
  · rw [Option.getD_none]
    omega
  · have hmod := Nat.div_add_mod (lag - 10).toNat (loadFreq cfg)
    have hmod' := Nat.mod_lt (lag - 10).toNat (by omega : 0 < loadFreq cfg)
    have hprod : ((1 + (lag - 10).toNat / loadFreq cfg : ℕ) : ℤ) * loadFreq cfg
        = loadFreq cfg + (loadFreq cfg * ((lag - 10).toNat / loadFreq cfg) : ℕ) := by
      push_cast
      ring
    rw [Option.getD_some, hprod]
    omega

omit [DecidableEq C] in
/-- The division is one of numbers that are not negative. -/
lemma missedUpdates_eq (cfg : Config) (hw : 32 ≤ w) {now next : ℤ}
    (hjiffies : m.jiffies = BitVec.ofInt w now)
    (hupdate : m.calcLoadUpdate = BitVec.ofInt w next) (hlate : 10 ≤ now - next)
    (hlt : now - next < 2 ^ (w - 1)) :
    missedUpdates cfg m = BitVec.ofNat w (1 + (now - next - 10).toNat / loadFreq cfg) := by
  have hfreq := loadFreq_bounds cfg
  have hpow : (2 : ℤ) ^ 31 ≤ 2 ^ (w - 1) := pow_le_pow_right₀ (by decide) (by omega)
  have hten : (10 : BitVec w) = BitVec.ofInt w 10 := rfl
  have hbehind : m.jiffies - m.calcLoadUpdate - 10 = BitVec.ofInt w (now - next - 10) := by
    rw [hjiffies, hupdate, hten, ← ofInt_sub, ← ofInt_sub]
  have hbehind' : (BitVec.ofInt w (now - next - 10)).toInt = now - next - 10 :=
    toInt_ofInt hw (by omega) (by omega)
  have hfreq' : (BitVec.ofNat w (loadFreq cfg)).toInt = loadFreq cfg := by
    rw [← BitVec.ofInt_natCast]
    exact toInt_ofInt hw (by omega) (by omega)
  have hne : BitVec.ofNat w (loadFreq cfg) ≠ -1#w := by
    intro heq
    have hone : -1#w = BitVec.ofInt w (-1) := by
      rw [BitVec.ofInt_neg]
      rfl
    rw [heq, hone, toInt_ofInt hw (by omega) (by omega)] at hfreq'
    omega
  have hquot : (m.jiffies - m.calcLoadUpdate - 10).sdiv (BitVec.ofNat w (loadFreq cfg))
      = BitVec.ofInt w ((now - next - 10) / loadFreq cfg) := by
    apply BitVec.eq_of_toInt_eq
    rw [BitVec.toInt_sdiv_of_ne_or_ne _ _ (.inr hne), hbehind, hbehind', hfreq',
      Int.tdiv_eq_ediv_of_nonneg (by omega)]
    have hnonneg := Int.ediv_nonneg (a := now - next - 10) (b := loadFreq cfg) (by omega)
      (by omega)
    have hself := Int.ediv_le_self (loadFreq cfg : ℤ) (a := now - next - 10) (by omega)
    rw [toInt_ofInt hw (by omega) (by omega)]
  have hcast : (now - next - 10) / loadFreq cfg
      = ((now - next - 10).toNat / loadFreq cfg : ℕ) := by
    rw [Int.natCast_div, Int.toNat_of_nonneg (by omega)]
  rw [missedUpdates, hquot, hcast, BitVec.ofInt_natCast, BitVec.ofNat_add]
  rfl

omit [DecidableEq C] in
lemma timeBefore_window (hw : 32 ≤ w) {now next : ℤ} (hjiffies : m.jiffies = BitVec.ofInt w now)
    (hupdate : m.calcLoadUpdate = BitVec.ofInt w next) (hge : -100000 ≤ now - next)
    (hlt : now - next < 2 ^ (w - 1)) :
    timeBefore m.jiffies (m.calcLoadUpdate + 10) = true ↔ now < next + 10 := by
  have hten : BitVec.ofInt w next + 10 = BitVec.ofInt w (next + 10) := by
    rw [BitVec.ofInt_add]
    rfl
  rw [hjiffies, hupdate, hten, timeBefore_ofInt hw (by omega) (by omega)]

omit [DecidableEq C] in
/-- The catch-up makes up for the intervals that have passed. -/
lemma catchUp_eq (hw : 32 ≤ w) {now next : ℤ} (hjiffies : m.jiffies = BitVec.ofInt w now)
    (hupdate : m.calcLoadUpdate = BitVec.ofInt w next) (hge : -100000 ≤ now - next)
    (hlt : now - next < 2 ^ (w - 1)) :
    catchUp cfg m = { m with
      avenrun := fun i =>
        caughtUp i (m.avenrun i) m.calcLoadTasks (missedAfter cfg (now - next))
      calcLoadUpdate := BitVec.ofInt w
        (next + (missedAfter cfg (now - next)).getD 0 * loadFreq cfg) } := by
  have hwindow := timeBefore_window hw hjiffies hupdate hge hlt
  rw [catchUp]
  split_ifs with htime
  · have hearly : now - next < 10 := by
      have hbefore := hwindow.mp htime
      omega
    rw [missedAfter, if_pos hearly, Option.getD_none, Nat.cast_zero, zero_mul, add_zero,
      ← hupdate]
    rfl
  · have hlate : 10 ≤ now - next := by
      have hafter := mt hwindow.mpr htime
      omega
    have hmissed := missedUpdates_eq cfg hw hjiffies hupdate hlate hlt
    rw [missedAfter, if_neg (not_lt.mpr hlate), hmissed, BitVec.setWidth_ofNat_of_le hw, hupdate,
      Option.getD_some, BitVec.ofInt_add, BitVec.ofInt_mul, BitVec.ofInt_natCast,
      BitVec.ofInt_natCast]
    rfl

/-! ## Each function does what is meant -/

/-- The machine shows the sampler `a`. -/
structure Shows [Fintype C] (cfg : Config) (m : Mem w C) (a : Sampler C (BitVec w)) : Prop where
  tasks : m.calcLoadTasks + m.calcLoadIdle (calcLoadReadIdx m) = ∑ c, a.last c
  idle : m.calcLoadIdle (!calcLoadReadIdx m) = ∑ c, (a.fresh c - a.last c)
  fresh : ∀ c, (m.rq c).calcLoadActive = a.fresh c
  load : ∀ c, (m.rq c).nrActive = a.load c
  jiffies : m.jiffies = BitVec.ofInt w a.now
  update : m.calcLoadUpdate = BitVec.ofInt w a.next
  due : ∀ c, (m.rq c).calcLoadUpdate = BitVec.ofInt w (a.due c)
  closed : a.now < a.next → a.last = a.fresh
  avenrun : ∀ i, m.avenrun i = a.samples.foldl (average i) 0
  now_ge : a.next - loadFreq cfg ≤ a.now
  now_lt : a.now < a.next + 10

lemma calcLoadFoldActive_eq (rq : Rq w) : calcLoadFoldActive rq
    = (rq.nrActive - rq.calcLoadActive, { rq with calcLoadActive := rq.nrActive }) := by
  rw [calcLoadFoldActive]
  split_ifs with hne
  · rfl
  · rw [not_not] at hne
    rw [hne, sub_self]

omit [DecidableEq C] in
/-- Nothing is added if there is nothing to add. -/
lemma ite_addTasks (m : Mem w C) (delta : BitVec w) :
    (if delta ≠ 0 then m.addTasks delta else m) = m.addTasks delta := by
  split_ifs with hdelta
  · rfl
  · rw [not_not] at hdelta
    rw [hdelta, Mem.addTasks, add_zero]

omit [DecidableEq C] in
lemma ite_addIdle (m : Mem w C) (idx : Bool) (delta : BitVec w) :
    (if delta ≠ 0 then m.addIdle idx delta else m) = m.addIdle idx delta := by
  split_ifs with hdelta
  · rfl
  · rw [not_not] at hdelta
    rw [hdelta, Mem.addIdle, add_zero, Function.update_eq_self]

/-- The index flips from one counter to the other. -/
lemma and_one_add_one (idx : BitVec 32) :
    decide ((idx + 1) &&& 1 = 1) = !decide (idx &&& 1 = 1) := by
  have hand : ∀ x : BitVec 32, x &&& 1 = 1 ↔ x.toNat % 2 = 1 := by
    intro x
    rw [← BitVec.toNat_inj, BitVec.toNat_and]
    change x.toNat &&& 1 = 1 ↔ _
    rw [Nat.and_one_is_mod]
  have hadd : (idx + 1).toNat = (idx.toNat + 1) % 2 ^ 32 := BitVec.toNat_add idx 1
  rw [← decide_not, decide_eq_decide, hand, hand, hadd]
  omega

omit [DecidableEq C] in
lemma writeIdx_eq (m : Mem w C) : calcLoadWriteIdx m
    = if timeBefore m.jiffies m.calcLoadUpdate then calcLoadReadIdx m else !calcLoadReadIdx m := by
  rw [calcLoadWriteIdx, writeIdx]
  split_ifs
  · rfl
  · exact and_one_add_one m.calcLoadIdx

variable {a : Sampler C (BitVec w)} {c : C}

/-- Fields that show `g`, after a write to one processor. -/
lemma setRq_field {β : Type} (f : Rq w → β) {g : C → β} {rq : Rq w} {x : β}
    (h : ∀ d, f (m.rq d) = g d) (hrq : f rq = x) (d : C) :
    f ((m.setRq c rq).rq d) = Function.update g c x d := by
  rcases eq_or_ne d c with rfl | hd
  · rw [Function.update_self, ← hrq]
    exact congrArg f (Function.update_self ..)
  · rw [Function.update_of_ne hd, ← h d]
    exact congrArg f (Function.update_of_ne hd ..)

/-- A write that leaves them as they are. -/
lemma setRq_field_same {β : Type} (f : Rq w → β) {g : C → β} {rq : Rq w}
    (h : ∀ d, f (m.rq d) = g d) (hrq : f rq = g c) (d : C) :
    f ((m.setRq c rq).rq d) = g d := by
  rw [setRq_field f h hrq d, Function.update_eq_self]

lemma due_setRq {rq : Rq w} {time : ℤ}
    (hdue : ∀ d, (m.rq d).calcLoadUpdate = BitVec.ofInt w (a.due d))
    (hrq : rq.calcLoadUpdate = BitVec.ofInt w time) (d : C) :
    ((m.setRq c rq).rq d).calcLoadUpdate = BitVec.ofInt w (Function.update a.due c time d) :=
  (setRq_field Rq.calcLoadUpdate hdue hrq d).trans
    (Function.apply_update (fun _ => BitVec.ofInt w) a.due c time d).symm

/-- Before the window opens the next sample counts everything. -/
lemma Sampler.count_closed (h : a.last = a.fresh) : (a.count c).last = (a.count c).fresh := by
  change Function.update a.last c _ = Function.update a.fresh c _
  rw [h, add_sub_cancel]

variable [Fintype C]

omit [DecidableEq C] in
/-- The time is near the opening of the window. -/
lemma Shows.near (hw : 32 ≤ w) (h : Shows cfg m a) :
    -100000 ≤ a.now - a.next ∧ a.now - a.next < 2 ^ (w - 1) := by
  have hfreq := loadFreq_bounds cfg
  have hge := h.now_ge
  have hlt := h.now_lt
  have hpow : (2 : ℤ) ^ 31 ≤ 2 ^ (w - 1) := pow_le_pow_right₀ (by decide) (by omega)
  omega

omit [DecidableEq C] in
lemma Shows.lag_eq (hw : 32 ≤ w) (h : Shows cfg m a) : lag m = a.now - a.next := by
  have hnear := h.near hw
  rw [lag, h.jiffies, h.update, ← ofInt_sub, toInt_ofInt hw (by omega) hnear.2]

omit [DecidableEq C] in
/-- The machine tells whether the window of the next sample is open. -/
lemma Shows.timeBefore_update (hw : 32 ≤ w) (h : Shows cfg m a) :
    timeBefore m.jiffies m.calcLoadUpdate = true ↔ a.now < a.next := by
  have hnear := h.near hw
  rw [h.jiffies, h.update, timeBefore_ofInt hw (by omega) hnear.2]

omit [DecidableEq C] in
lemma Shows.timeBefore_window (hw : 32 ≤ w) (h : Shows cfg m a) :
    timeBefore m.jiffies (m.calcLoadUpdate + 10) = true ↔ a.now < a.next + 10 :=
  Load.timeBefore_window hw h.jiffies h.update (h.near hw).1 (h.near hw).2

omit [DecidableEq C] in
lemma Shows.isDue_eq (h : Shows cfg m a) (c : C) :
    a.isDue w c = !timeBefore m.jiffies (m.rq c).calcLoadUpdate := by
  rw [h.jiffies, h.due c, timeBefore, ← ofInt_sub, ← decide_not, Sampler.isDue, decide_eq_decide]
  exact not_lt.symm

/-- What the tick folds is counted by the next sample. -/
lemma Shows.countTasks (h : Shows cfg m a) {rq : Rq w} {time : ℤ}
    (hactive : rq.calcLoadActive = a.load c) (hrq : rq.nrActive = a.load c)
    (hdue : rq.calcLoadUpdate = BitVec.ofInt w time) :
    Shows cfg ((m.setRq c rq).addTasks (a.load c - a.fresh c)) ((a.count c).setDue c time) where
  tasks := by
    refine Eq.trans ?_ (Sampler.sum_count_last a c).symm
    rw [← h.tasks]
    change m.calcLoadTasks + (a.load c - a.fresh c) + m.calcLoadIdle (calcLoadReadIdx m)
      = m.calcLoadTasks + m.calcLoadIdle (calcLoadReadIdx m) + (a.load c - a.fresh c)
    ring
  idle := h.idle.trans (Sampler.sum_count_deferred a c).symm
  fresh := setRq_field Rq.calcLoadActive h.fresh hactive
  load := setRq_field_same Rq.nrActive h.load hrq
  jiffies := h.jiffies
  update := h.update
  due := due_setRq h.due hdue
  closed hclosed := Sampler.count_closed (h.closed hclosed)
  avenrun := h.avenrun
  now_ge := h.now_ge
  now_lt := h.now_lt

lemma Shows.accountActive (h : Shows cfg m a) (c : C) :
    Shows cfg (calcLoadAccountActive cfg m c) (a.step cfg w (.accountActive c)) := by
  rw [calcLoadAccountActive, Sampler.step, h.isDue_eq c]
  cases timeBefore m.jiffies (m.rq c).calcLoadUpdate with
  | true => exact h
  | false =>
      have hdue : (m.rq c).calcLoadUpdate + BitVec.ofNat w (loadFreq cfg)
          = BitVec.ofInt w (a.due c + loadFreq cfg) := by
        rw [h.due c, BitVec.ofInt_add, BitVec.ofInt_natCast]
      dsimp only
      rw [if_neg Bool.false_ne_true, ite_addTasks, calcLoadFoldActive_eq, h.load, h.fresh]
      exact h.countTasks rfl (h.load c) hdue

lemma Shows.enterIdle (hw : 32 ≤ w) (h : Shows cfg m a) (c : C) :
    Shows cfg (calcLoadEnterIdle m c) (a.step cfg w (.enterIdle c)) := by
  have hopen := h.timeBefore_update hw
  rw [calcLoadEnterIdle, ite_addIdle, calcLoadFoldActive_eq, h.load, h.fresh, writeIdx_eq,
    Sampler.step]
  change Shows cfg (Mem.addIdle (m.setRq c { m.rq c with calcLoadActive := a.load c })
    (if timeBefore m.jiffies m.calcLoadUpdate then calcLoadReadIdx m else !calcLoadReadIdx m)
    (a.load c - a.fresh c)) _
  by_cases hnow : a.now < a.next
  · rw [if_pos (hopen.mpr hnow), if_pos hnow]
    refine ⟨?_, ?_, setRq_field Rq.calcLoadActive h.fresh rfl,
      setRq_field_same Rq.nrActive h.load (h.load c), h.jiffies, h.update,
      setRq_field_same Rq.calcLoadUpdate h.due (h.due c),
      fun hclosed => Sampler.count_closed (h.closed hclosed), h.avenrun, h.now_ge, h.now_lt⟩
    · rw [Sampler.sum_count_last, ← h.tasks]
      change m.calcLoadTasks + Function.update m.calcLoadIdle (calcLoadReadIdx m) _
        (calcLoadReadIdx m) = _
      rw [Function.update_self]
      change m.calcLoadTasks + (m.calcLoadIdle (calcLoadReadIdx m) + (a.load c - a.fresh c)) = _
      ring
    · rw [Sampler.sum_count_deferred, ← h.idle]
      exact Function.update_of_ne (Bool.not_ne_self _) ..
  · rw [if_neg (mt hopen.mp hnow), if_neg hnow]
    refine ⟨?_, ?_, setRq_field Rq.calcLoadActive h.fresh rfl,
      setRq_field_same Rq.nrActive h.load (h.load c), h.jiffies, h.update,
      setRq_field_same Rq.calcLoadUpdate h.due (h.due c), fun hclosed => absurd hclosed hnow,
      h.avenrun, h.now_ge, h.now_lt⟩
    · refine Eq.trans ?_ h.tasks
      change m.calcLoadTasks + Function.update m.calcLoadIdle (!calcLoadReadIdx m) _
        (calcLoadReadIdx m) = _
      rw [Function.update_of_ne (Bool.self_ne_not _)]
    · refine Eq.trans ?_ (Sampler.sum_defer a c).symm
      rw [← h.idle]
      exact Function.update_self ..

lemma Shows.setRq (h : Shows cfg m a) (rq : Rq w)
    (hactive : rq.calcLoadActive = (m.rq c).calcLoadActive)
    (hdue : rq.calcLoadUpdate = (m.rq c).calcLoadUpdate) :
    Shows cfg (m.setRq c rq) { a with load := Function.update a.load c rq.nrActive } where
  tasks := h.tasks
  idle := h.idle
  fresh := setRq_field_same Rq.calcLoadActive h.fresh (hactive.trans (h.fresh c))
  load := setRq_field Rq.nrActive h.load rfl
  jiffies := h.jiffies
  update := h.update
  due := setRq_field_same Rq.calcLoadUpdate h.due (hdue.trans (h.due c))
  closed := h.closed
  avenrun := h.avenrun
  now_ge := h.now_ge
  now_lt := h.now_lt

/-- Only the time of a processor changes. -/
lemma Shows.setDue (h : Shows cfg m a) {update : BitVec w} {time : ℤ}
    (hupdate : update = BitVec.ofInt w time) :
    Shows cfg (m.setRq c { m.rq c with calcLoadUpdate := update }) (a.setDue c time) where
  tasks := h.tasks
  idle := h.idle
  fresh := setRq_field_same Rq.calcLoadActive h.fresh (h.fresh c)
  load := setRq_field_same Rq.nrActive h.load (h.load c)
  jiffies := h.jiffies
  update := h.update
  due := due_setRq h.due hupdate
  closed := h.closed
  avenrun := h.avenrun
  now_ge := h.now_ge
  now_lt := h.now_lt

lemma Shows.exitIdle (hw : 32 ≤ w) (h : Shows cfg m a) (c : C) :
    Shows cfg (calcLoadExitIdle cfg m c) (a.step cfg w (.exitIdle c)) := by
  have hwindow := h.timeBefore_window hw
  rw [calcLoadExitIdle, Sampler.step, h.isDue_eq c]
  cases timeBefore m.jiffies (m.rq c).calcLoadUpdate with
  | true => exact h
  | false =>
      have hnext : m.calcLoadUpdate + BitVec.ofNat w (loadFreq cfg)
          = BitVec.ofInt w (a.next + loadFreq cfg) := by
        rw [h.update, BitVec.ofInt_add, BitVec.ofInt_natCast]
      rw [if_neg Bool.false_ne_true]
      by_cases hnow : a.now < a.next + 10
      · rw [if_pos (hwindow.mpr hnow), if_pos hnow]
        exact h.setDue hnext
      · rw [if_neg (mt hwindow.mp hnow), if_neg hnow]
        exact h.setDue h.update

/-! ## The timer -/

omit [DecidableEq C] [Fintype C] in
/-- The counter that is read is emptied into `calc_load_tasks`. -/
lemma foldIdle_eq (m : Mem w C) :
    (if (calcLoadFoldIdle m).1 ≠ 0 then (calcLoadFoldIdle m).2.addTasks (calcLoadFoldIdle m).1
      else (calcLoadFoldIdle m).2) = { m with
        calcLoadTasks := m.calcLoadTasks + m.calcLoadIdle (calcLoadReadIdx m)
        calcLoadIdle := Function.update m.calcLoadIdle (calcLoadReadIdx m) 0 } := by
  rw [ite_addTasks, calcLoadFoldIdle]
  split_ifs with hidle
  · rfl
  · rw [not_not] at hidle
    have hupdate : Function.update m.calcLoadIdle (calcLoadReadIdx m) 0 = m.calcLoadIdle :=
      Function.update_eq_iff.mpr ⟨hidle.symm, fun _ _ => rfl⟩
    rw [hupdate, hidle]
    rfl

omit [DecidableEq C] in
/-- Until the sample only the time changes. -/
lemma Shows.wait (h : Shows cfg m a) {ticks : ℕ} (hnow : a.now + ticks < a.next + 10) :
    Shows cfg { m with jiffies := BitVec.ofInt w (a.now + ticks) }
      { a with now := a.now + ticks } where
  tasks := h.tasks
  idle := h.idle
  fresh := h.fresh
  load := h.load
  jiffies := rfl
  update := h.update
  due := h.due
  closed hclosed := h.closed (by
    change a.now + ticks < a.next at hclosed
    omega)
  avenrun := h.avenrun
  now_ge := by
    have hge := h.now_ge
    change a.next - loadFreq cfg ≤ a.now + ticks
    omega
  now_lt := hnow

omit [DecidableEq C] in
/-- **The sample**: the counter of the window becomes the one to read. -/
lemma Shows.take (h : Shows cfg m a) {now : ℤ} (hlate : a.next + 10 ≤ now) {m' : Mem w C}
    (hm' : m' = { m with
      jiffies := BitVec.ofInt w now
      calcLoadTasks := m.calcLoadTasks + m.calcLoadIdle (calcLoadReadIdx m)
      calcLoadIdle := Function.update m.calcLoadIdle (calcLoadReadIdx m) 0
      calcLoadIdx := m.calcLoadIdx + 1
      calcLoadUpdate := BitVec.ofInt w (a.take cfg now).next
      avenrun := fun i => average i (m.avenrun i)
        ⟨m.calcLoadTasks + m.calcLoadIdle (calcLoadReadIdx m),
          missedAfter cfg (now - (a.next + loadFreq cfg))⟩ }) :
    Shows cfg m' (a.take cfg now) := by
  have hge : -loadFreq cfg ≤ now - (a.next + loadFreq cfg) := by omega
  have hbounds := missedAfter_bounds cfg hge
  have hnext : (a.take cfg now).next = a.next + loadFreq cfg
      + (missedAfter cfg (now - (a.next + loadFreq cfg))).getD 0 * loadFreq cfg := rfl
  have hread : calcLoadReadIdx m' = !calcLoadReadIdx m := by
    rw [hm']
    exact and_one_add_one m.calcLoadIdx
  have hidle : m'.calcLoadIdle = Function.update m.calcLoadIdle (calcLoadReadIdx m) 0 := by
    rw [hm']
  have htasks : m'.calcLoadTasks = ∑ d, a.last d := by
    rw [hm', ← h.tasks]
  refine ⟨?_, ?_, ?_, ?_, ?_, ?_, ?_, fun _ => rfl, ?_, ?_, ?_⟩
  · rw [hread, hidle, htasks, Function.update_of_ne (Bool.not_ne_self _), h.idle,
      Finset.sum_sub_distrib]
    change _ = ∑ d, a.fresh d
    ring
  · rw [hread, Bool.not_not, hidle, Function.update_self]
    change 0 = ∑ d, (a.fresh d - a.fresh d)
    rw [Finset.sum_congr rfl fun d _ => sub_self (a.fresh d), Finset.sum_const_zero]
  · rw [hm']
    exact h.fresh
  · rw [hm']
    exact h.load
  · rw [hm']
    rfl
  · rw [hm']
  · rw [hm']
    exact h.due
  · intro i
    change m'.avenrun i = List.foldl (average i) 0
      (a.samples ++ [(⟨∑ d, a.last d, _⟩ : Sample (BitVec w))])
    rw [List.foldl_append, ← h.avenrun i, ← h.tasks, hm']
    rfl
  · rw [hnext]
    change _ ≤ now
    omega
  · rw [hnext]
    change now < _
    omega

omit [DecidableEq C] in
lemma Shows.timer (hw : 32 ≤ w) (h : Shows cfg m a) {ticks : ℕ}
    (hticks : lag m + ticks < 2 ^ (w - 1)) :
    Shows cfg (globalLoadAfter cfg m ticks) (a.timer cfg ticks) := by
  have hfreq := loadFreq_bounds cfg
  have hge := h.now_ge
  rw [h.lag_eq hw] at hticks
  have hjiffies : m.jiffies + BitVec.ofNat w ticks = BitVec.ofInt w (a.now + ticks) := by
    rw [h.jiffies, BitVec.ofInt_add, BitVec.ofInt_natCast]
  rw [globalLoadAfter, hjiffies, calcGlobalLoad, Sampler.timer]
  generalize hm₁ : ({ m with jiffies := BitVec.ofInt w (a.now + ticks) } : Mem w C) = m₁
  have hjiffies₁ : m₁.jiffies = BitVec.ofInt w (a.now + ticks) := by rw [← hm₁]
  have hupdate₁ : m₁.calcLoadUpdate = BitVec.ofInt w a.next := by rw [← hm₁, ← h.update]
  have hwindow := Load.timeBefore_window hw hjiffies₁ hupdate₁ (by omega) (by omega)
  by_cases hnow : a.now + ticks < a.next + 10
  · rw [if_pos (hwindow.mpr hnow), if_pos hnow, ← hm₁]
    exact h.wait hnow
  · rw [if_neg (mt hwindow.mp hnow), if_neg hnow]
    dsimp only
    rw [foldIdle_eq, calcGlobalNohz]
    generalize hm₂ : ({ m₁ with
      calcLoadTasks := m₁.calcLoadTasks + m₁.calcLoadIdle (calcLoadReadIdx m₁)
      calcLoadIdle := Function.update m₁.calcLoadIdle (calcLoadReadIdx m₁) 0 } : Mem w C) = m₂
    have hjiffies₂ : (sample cfg m₂).jiffies = BitVec.ofInt w (a.now + ticks) := by
      rw [← hjiffies₁, ← hm₂]
      rfl
    have hupdate₂ : (sample cfg m₂).calcLoadUpdate
        = BitVec.ofInt w (a.next + loadFreq cfg) := by
      rw [BitVec.ofInt_add, BitVec.ofInt_natCast, ← hupdate₁, ← hm₂]
      rfl
    rw [catchUp_eq hw hjiffies₂ hupdate₂ (by omega) (by omega)]
    refine h.take (not_lt.mp hnow) ?_
    rw [← hm₂, ← hm₁]
    rfl

/-- **Each function does what is meant.** -/
theorem Shows.step (hw : 32 ≤ w) (h : Shows cfg m a) {op : Op C (BitVec w)} (hop : op.Allowed m) :
    Shows cfg (Load.step cfg m op) (a.step cfg w op) := by
  cases op with
  | setLoad c nrRunning nrUninterruptible => exact h.setRq _ rfl rfl
  | accountActive c => exact h.accountActive c
  | enterIdle c => exact h.enterIdle hw c
  | exitIdle c => exact h.exitIdle hw c
  | timer ticks => exact h.timer hw hop

/-! ## Runs -/

end

end Load
