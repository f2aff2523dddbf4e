import OsPrj.Load.Model
import Mathlib.Algebra.BigOperators.Group.Finset.Basic
import Mathlib.Data.Fintype.BigOperators
import Mathlib.Tactic.LinearCombination
import Mathlib.Tactic.Ring

/-!
# Deltas between the processors

The functions of the load average run on all processors at once.  Here each access to
`calc_load_tasks`, to the idle counters and to their index is a step of its own, and the steps of
different processors come in any order.  Only what concerns nothing of these is joined: a test of
the time is one step, and so are the writes of the averages and of the time of the next sample.

* `Pc` — where a processor stands in one of the functions.
* `accesses_accountActive`, `accesses_enterIdle`, `accesses_globalLoad` — a processor that nobody
  disturbs does what the function does.
* `calc_load_tasks_conserved` — **no delta is lost and none is counted twice**, whatever the order.
-/

namespace Load

variable {w : ℕ} {C : Type} [DecidableEq C]

/-! ## Steps -/

/-- Where a processor stands: in none of the functions, or before which access. -/
inductive Pc (w : ℕ) where
  | out
  /-- `calc_load_account_active` has folded -/
  | account (delta : BitVec w)
  /-- `calc_load_enter_idle` has folded -/
  | enter (delta : BitVec w)
  /-- `calc_load_write_idx` has read the index, but not the time -/
  | enterTime (delta : BitVec w) (idx : BitVec 32)
  | enterAdd (delta : BitVec w) (idx : Bool)
  /-- `calc_global_load` is in time -/
  | readIdx
  | readIdle (idx : Bool)
  /-- `calc_load_fold_idle` has seen something in the counter -/
  | foldIdle (idx : Bool)
  | addTasks (delta : BitVec w)
  | sample
  | catchUp
  | flip

/-- What the processor has folded and nobody else sees yet. -/
def Pc.pending : Pc w → BitVec w
  | account delta => delta
  | enter delta => delta
  | enterTime delta _ => delta
  | enterAdd delta _ => delta
  | addTasks delta => delta
  | _ => 0

/-- The first access of `calc_load_account_active`. -/
def startAccountActive (cfg : Config) (m : Mem w C) (c : C) : Mem w C × Pc w :=
  if timeBefore m.jiffies (m.rq c).calcLoadUpdate then (m, .out)
  else
    let folded := calcLoadFoldActive (m.rq c)
    (m.setRq c (folded.2.nextUpdate cfg), if folded.1 ≠ 0 then .account folded.1 else .out)

/-- The first access of `calc_load_enter_idle`. -/
def startEnterIdle (m : Mem w C) (c : C) : Mem w C × Pc w :=
  let folded := calcLoadFoldActive (m.rq c)
  (m.setRq c folded.2, if folded.1 ≠ 0 then .enter folded.1 else .out)

/-- The first access of `calc_global_load`. -/
def startGlobalLoad (m : Mem w C) : Mem w C × Pc w :=
  (m, if timeBefore m.jiffies (m.calcLoadUpdate + 10) then .out else .readIdx)

/-- The next access of a processor, and where it stands then. -/
def access (cfg : Config) (m : Mem w C) : Pc w → Mem w C × Pc w
  | .out => (m, .out)
  | .account delta => (m.addTasks delta, .out)
  | .enter delta => (m, .enterTime delta m.calcLoadIdx)
  | .enterTime delta idx => (m, .enterAdd delta (writeIdx m idx))
  | .enterAdd delta idx => (m.addIdle idx delta, .out)
  | .readIdx => (m, .readIdle (calcLoadReadIdx m))
  | .readIdle idx => (m, if m.calcLoadIdle idx ≠ 0 then .foldIdle idx else .sample)
  | .foldIdle idx =>
      -- `atomic_long_xchg`
      ({ m with calcLoadIdle := Function.update m.calcLoadIdle idx 0 },
        if m.calcLoadIdle idx ≠ 0 then .addTasks (m.calcLoadIdle idx) else .sample)
  | .addTasks delta => (m.addTasks delta, .sample)
  | .sample => (sample cfg m, .catchUp)
  | .catchUp => (catchUp cfg m, .flip)
  | .flip => (m.flipIdx, .out)

/-- The memory, and where the processors stand. -/
structure Par (w : ℕ) (C : Type) where
  mem : Mem w C
  pc : C → Pc w

/-- The processor `c` has made an access. -/
def Par.move (s : Par w C) (c : C) (r : Mem w C × Pc w) : Par w C :=
  ⟨r.1, Function.update s.pc c r.2⟩

/-- What can happen. -/
inductive Act (w : ℕ) (C : Type) where
  | accountActive (c : C)
  | enterIdle (c : C)
  | exitIdle (c : C)
  | globalLoad (c : C)
  | advance (c : C)
  /-- the scheduler runs on the processor `c` -/
  | setLoad (c : C) (nrRunning nrUninterruptible : BitVec w)
  | addJiffies (ticks : BitVec w)
  | migrate (src dest : C)
  | remove (c : C)
  | upPrepare (c : C)

/-- A processor is in one of the functions at a time. -/
def Act.Allowed (s : Par w C) : Act w C → Prop
  | accountActive c | enterIdle c | exitIdle c | globalLoad c => s.pc c = .out
  | _ => True

def parStep (cfg : Config) (s : Par w C) : Act w C → Par w C
  | .accountActive c => s.move c (startAccountActive cfg s.mem c)
  | .enterIdle c => s.move c (startEnterIdle s.mem c)
  | .exitIdle c => { s with mem := calcLoadExitIdle cfg s.mem c }
  | .globalLoad c => s.move c (startGlobalLoad s.mem)
  | .advance c => s.move c (access cfg s.mem (s.pc c))
  | .setLoad c nrRunning nrUninterruptible => { s with
      mem := s.mem.setRq c { s.mem.rq c with nrRunning, nrUninterruptible } }
  | .addJiffies ticks => { s with mem := { s.mem with jiffies := s.mem.jiffies + ticks } }
  | .migrate src dest => { s with mem := migrateNrUninterruptible s.mem src dest }
  | .remove c => { s with mem := calcGlobalLoadRemove s.mem c }
  | .upPrepare c => { s with mem := cpuUpPrepare s.mem c }

/-- The runs from `sched_init` on. -/
inductive Interleaved (cfg : Config) (jiffies : BitVec cfg.wordSize) :
    Par cfg.wordSize C → Prop where
  | init : Interleaved cfg jiffies ⟨init cfg jiffies, fun _ => .out⟩
  | step {s : Par cfg.wordSize C} {a : Act cfg.wordSize C} : Interleaved cfg jiffies s →
      a.Allowed s → Interleaved cfg jiffies (parStep cfg s a)

/-! ## A processor on its own -/

section

variable {cfg : Config} {m m' : Mem w C} {s : Par w C} {c : C} {p : Pc w}

/-- `n` accesses of one processor. -/
abbrev accesses (cfg : Config) (n : ℕ) (r : Mem w C × Pc w) : Mem w C × Pc w :=
  (fun r => access cfg r.1 r.2)^[n] r

/-- `calc_load_account_active` on a processor that nobody disturbs. -/
theorem accesses_accountActive (cfg : Config) (m : Mem w C) (c : C) :
    ∃ n, accesses cfg n (startAccountActive cfg m c) = (calcLoadAccountActive cfg m c, .out) := by
  rw [startAccountActive, calcLoadAccountActive]
  split_ifs
  · exact ⟨0, rfl⟩
  · dsimp only
    split_ifs
    · exact ⟨1, rfl⟩
    · exact ⟨0, rfl⟩

/-- `calc_load_enter_idle` on a processor that nobody disturbs. -/
theorem accesses_enterIdle (cfg : Config) (m : Mem w C) (c : C) :
    ∃ n, accesses cfg n (startEnterIdle m c) = (calcLoadEnterIdle m c, .out) := by
  rw [startEnterIdle, calcLoadEnterIdle]
  by_cases hdelta : (calcLoadFoldActive (m.rq c)).1 ≠ 0
  · rw [if_pos hdelta, if_pos hdelta]
    exact ⟨3, rfl⟩
  · rw [if_neg hdelta, if_neg hdelta]
    exact ⟨0, rfl⟩

omit [DecidableEq C] in
/-- `calc_global_load` on a processor that nobody disturbs. -/
theorem accesses_globalLoad (cfg : Config) (m : Mem w C) :
    ∃ n, accesses cfg n (startGlobalLoad m) = (calcGlobalLoad cfg m, .out) := by
  rw [startGlobalLoad, calcGlobalLoad]
  split_ifs with htime
  · exact ⟨0, rfl⟩
  · by_cases hidle : m.calcLoadIdle (calcLoadReadIdx m) ≠ 0
    · refine ⟨7, ?_⟩
      dsimp only
      rw [calcLoadFoldIdle, if_pos hidle]
      dsimp only
      rw [if_pos hidle]
      change accesses cfg 5 (access cfg m (.readIdle (calcLoadReadIdx m))) = _
      rw [access, if_pos hidle]
      change accesses cfg 4 (access cfg m (.foldIdle (calcLoadReadIdx m))) = _
      rw [access, if_pos hidle]
      rfl
    · refine ⟨5, ?_⟩
      dsimp only
      rw [calcLoadFoldIdle, if_neg hidle]
      dsimp only
      rw [if_neg (not_not.mpr rfl)]
      change accesses cfg 3 (access cfg m (.readIdle (calcLoadReadIdx m))) = _
      rw [access, if_neg hidle]
      rfl

/-! ## What is counted -/

/-- What has been handed over to the others. -/
def counted (m : Mem w C) : BitVec w :=
  m.calcLoadTasks + m.calcLoadIdle false + m.calcLoadIdle true

/-- What the processor has folded last. -/
abbrev active (m : Mem w C) (c : C) : BitVec w := (m.rq c).calcLoadActive

omit [DecidableEq C] in
lemma counted_addTasks (m : Mem w C) (delta : BitVec w) :
    counted (m.addTasks delta) = counted m + delta := by
  change m.calcLoadTasks + delta + m.calcLoadIdle false + m.calcLoadIdle true
    = m.calcLoadTasks + m.calcLoadIdle false + m.calcLoadIdle true + delta
  ring

omit [DecidableEq C] in
/-- One counter is written. -/
lemma counted_update (m : Mem w C) (idx : Bool) (x : BitVec w) :
    counted { m with calcLoadIdle := Function.update m.calcLoadIdle idx x }
      = counted m + (x - m.calcLoadIdle idx) := by
  cases idx
  · change m.calcLoadTasks + x + m.calcLoadIdle true
      = m.calcLoadTasks + m.calcLoadIdle false + m.calcLoadIdle true + (x - m.calcLoadIdle false)
    ring
  · change m.calcLoadTasks + m.calcLoadIdle false + x
      = m.calcLoadTasks + m.calcLoadIdle false + m.calcLoadIdle true + (x - m.calcLoadIdle true)
    ring

omit [DecidableEq C] in
lemma counted_addIdle (m : Mem w C) (idx : Bool) (delta : BitVec w) :
    counted (m.addIdle idx delta) = counted m + delta := by
  rw [Mem.addIdle, counted_update]
  ring

omit [DecidableEq C] in
lemma pending_ite (delta : BitVec w) {p : BitVec w → Pc w} {q : Pc w}
    (hp : (p delta).pending = delta) (hq : q.pending = 0) :
    (if delta ≠ 0 then p delta else q).pending = delta := by
  split_ifs with hdelta
  · exact hp
  · rw [hq]
    exact (not_not.mp hdelta).symm

lemma active_setRq_self (m : Mem w C) (c : C) (rq : Rq w) :
    active (m.setRq c rq) c = rq.calcLoadActive :=
  congrArg Rq.calcLoadActive (Function.update_self ..)

lemma active_setRq_of_ne (m : Mem w C) {c d : C} (hne : d ≠ c) (rq : Rq w) :
    active (m.setRq c rq) d = active m d :=
  congrArg Rq.calcLoadActive (Function.update_of_ne hne ..)

/-- The fold hands over what the load has changed by. -/
lemma calcLoadFoldActive_active (rq : Rq w) :
    (calcLoadFoldActive rq).2.calcLoadActive = rq.calcLoadActive + (calcLoadFoldActive rq).1 := by
  rw [calcLoadFoldActive]
  split_ifs
  · change rq.nrActive = rq.calcLoadActive + (rq.nrActive - rq.calcLoadActive)
    ring
  · change rq.calcLoadActive = rq.calcLoadActive + 0
    ring

omit [DecidableEq C] in
lemma catchUp_calcLoad (cfg : Config) (m : Mem w C) :
    counted (catchUp cfg m) = counted m ∧ (catchUp cfg m).rq = m.rq := by
  rw [catchUp]
  split_ifs
  · exact ⟨rfl, rfl⟩
  · exact ⟨rfl, rfl⟩

omit [DecidableEq C] in
/-- **An access hands over what the processor has folded, or leaves it pending.** -/
lemma counted_access (cfg : Config) (m : Mem w C) (p : Pc w) :
    counted (access cfg m p).1 + (access cfg m p).2.pending = counted m + p.pending ∧
      (access cfg m p).1.rq = m.rq := by
  cases p with
  | out => exact ⟨rfl, rfl⟩
  | account delta =>
      refine ⟨?_, rfl⟩
      change counted (m.addTasks delta) + 0 = counted m + delta
      rw [counted_addTasks, add_zero]
  | enter delta => exact ⟨rfl, rfl⟩
  | enterTime delta idx => exact ⟨rfl, rfl⟩
  | enterAdd delta idx =>
      refine ⟨?_, rfl⟩
      change counted (m.addIdle idx delta) + 0 = counted m + delta
      rw [counted_addIdle, add_zero]
  | readIdx => exact ⟨rfl, rfl⟩
  | readIdle idx =>
      rw [access]
      split_ifs
      · exact ⟨rfl, rfl⟩
      · exact ⟨rfl, rfl⟩
  | foldIdle idx =>
      refine ⟨?_, rfl⟩
      have hpending := pending_ite (m.calcLoadIdle idx) (p := Pc.addTasks) (q := .sample) rfl rfl
      change counted { m with calcLoadIdle := Function.update m.calcLoadIdle idx 0 }
        + Pc.pending (if m.calcLoadIdle idx ≠ 0 then .addTasks (m.calcLoadIdle idx) else .sample)
        = counted m + 0
      rw [hpending, counted_update]
      ring
  | addTasks delta =>
      refine ⟨?_, rfl⟩
      change counted (m.addTasks delta) + 0 = counted m + delta
      rw [counted_addTasks, add_zero]
  | sample => exact ⟨rfl, rfl⟩
  | catchUp =>
      have hcatch := catchUp_calcLoad cfg m
      exact ⟨congrArg (· + (0 : BitVec w)) hcatch.1, hcatch.2⟩
  | flip => exact ⟨rfl, rfl⟩

/-! ## Conservation -/

variable [Fintype C]

/-- Everything that has been folded is counted once, or still pending. -/
def Conserved (s : Par w C) : Prop :=
  counted s.mem + ∑ c, (s.pc c).pending = ∑ c, active s.mem c

omit [DecidableEq C] in
lemma Conserved.congr (h : Conserved s) (hcounted : counted m' = counted s.mem)
    (hactive : ∀ d, active m' d = active s.mem d) : Conserved ⟨m', s.pc⟩ := by
  rw [Conserved, hcounted, Finset.sum_congr rfl fun d _ => hactive d]
  exact h

/-- **A step of one processor.** -/
lemma Conserved.move (h : Conserved s) (hactive : ∀ d ≠ c, active m' d = active s.mem d)
    (hbalance : counted m' + p.pending - active m' c
      = counted s.mem + (s.pc c).pending - active s.mem c) : Conserved (s.move c (m', p)) := by
  have hpending : ∀ d ∈ Finset.univ.erase c,
      (Function.update s.pc c p d).pending = (s.pc d).pending := by
    intro d hd
    rw [Function.update_of_ne (Finset.ne_of_mem_erase hd)]
  have hactives : ∀ d ∈ Finset.univ.erase c, active m' d = active s.mem d := fun d hd =>
    hactive d (Finset.ne_of_mem_erase hd)
  rw [Conserved, ← Finset.add_sum_erase _ _ (Finset.mem_univ c),
    ← Finset.add_sum_erase _ (active s.mem) (Finset.mem_univ c)] at h
  change counted m' + ∑ d, (Function.update s.pc c p d).pending = ∑ d, active m' d
  rw [← Finset.add_sum_erase _ _ (Finset.mem_univ c),
    ← Finset.add_sum_erase _ (active m') (Finset.mem_univ c), Finset.sum_congr rfl hpending,
    Finset.sum_congr rfl hactives, Function.update_self]
  linear_combination h + hbalance

/-- A fold is pending at first. -/
lemma Conserved.fold (h : Conserved s) (hpc : s.pc c = .out) {rq : Rq w}
    (hrq : rq.calcLoadActive = (calcLoadFoldActive (s.mem.rq c)).2.calcLoadActive)
    (hp : p.pending = (calcLoadFoldActive (s.mem.rq c)).1) :
    Conserved (s.move c (s.mem.setRq c rq, p)) := by
  refine h.move (fun d hd => active_setRq_of_ne s.mem hd rq) ?_
  have hout : (Pc.out : Pc w).pending = 0 := rfl
  rw [active_setRq_self, hrq, calcLoadFoldActive_active, hp, hpc, hout]
  change counted s.mem + _ - (active s.mem c + _) = _
  ring

/-- **What one step preserves.** -/
theorem Conserved.parStep {a : Act w C} (h : Conserved s) (ha : a.Allowed s) :
    Conserved (parStep cfg s a) := by
  cases a with
  | accountActive c =>
      have hpc : s.pc c = .out := ha
      rw [Load.parStep, startAccountActive]
      split_ifs
      · refine h.move (fun _ _ => rfl) ?_
        rw [hpc]
      · exact h.fold hpc rfl (pending_ite _ (p := Pc.account) rfl rfl)
  | enterIdle c =>
      have hpc : s.pc c = .out := ha
      exact h.fold hpc rfl (pending_ite _ (p := Pc.enter) rfl rfl)
  | exitIdle c =>
      have hactive : counted (calcLoadExitIdle cfg s.mem c) = counted s.mem ∧
          ∀ d, active (calcLoadExitIdle cfg s.mem c) d = active s.mem d := by
        have hset : ∀ u d, active (s.mem.setRq c { s.mem.rq c with calcLoadUpdate := u }) d
            = active s.mem d := by
          intro u d
          rcases eq_or_ne d c with rfl | hd
          · exact active_setRq_self s.mem d _
          · exact active_setRq_of_ne s.mem hd _
        rw [calcLoadExitIdle]
        split_ifs
        · exact ⟨rfl, fun _ => rfl⟩
        · exact ⟨rfl, hset _⟩
        · exact ⟨rfl, hset _⟩
      exact h.congr hactive.1 hactive.2
  | globalLoad c =>
      have hpc : s.pc c = .out := ha
      rw [Load.parStep, startGlobalLoad]
      refine h.move (fun _ _ => rfl) ?_
      rw [hpc]
      split_ifs
      · rfl
      · rfl
  | advance c =>
      rcases counted_access cfg s.mem (s.pc c) with ⟨hcounted, hrq⟩
      have hactive : ∀ d, active (access cfg s.mem (s.pc c)).1 d = active s.mem d := fun d =>
        congrArg (fun rq => (rq d).calcLoadActive) hrq
      have hbalance : counted (access cfg s.mem (s.pc c)).1 + (access cfg s.mem (s.pc c)).2.pending
          - active (access cfg s.mem (s.pc c)).1 c
          = counted s.mem + (s.pc c).pending - active s.mem c := by
        rw [hcounted, hactive]
      exact h.move (fun d _ => hactive d) hbalance
  | setLoad c nrRunning nrUninterruptible =>
      refine h.congr rfl fun d => ?_
      rcases eq_or_ne d c with rfl | hd
      · exact active_setRq_self s.mem d _
      · exact active_setRq_of_ne s.mem hd _
  | addJiffies ticks => exact h.congr rfl fun _ => rfl
  | migrate src dest =>
      refine h.congr rfl fun d => ?_
      rw [migrateNrUninterruptible]
      rcases eq_or_ne d src with rfl | hsrc
      · rw [active_setRq_self]
        rcases eq_or_ne d dest with rfl | hdest
        · exact active_setRq_self s.mem d _
        · exact active_setRq_of_ne s.mem hdest _
      · rw [active_setRq_of_ne _ hsrc]
        rcases eq_or_ne d dest with rfl | hdest
        · exact active_setRq_self s.mem d _
        · exact active_setRq_of_ne s.mem hdest _
  | remove c =>
      have hbalance : counted (calcGlobalLoadRemove s.mem c) + (s.pc c).pending
          - active (calcGlobalLoadRemove s.mem c) c
          = counted s.mem + (s.pc c).pending - active s.mem c := by
        rw [calcGlobalLoadRemove, active_setRq_self]
        change counted (s.mem.addTasks (-active s.mem c)) + _ - 0 = _
        rw [counted_addTasks]
        ring
      have hactive : ∀ d ≠ c, active (calcGlobalLoadRemove s.mem c) d = active s.mem d := by
        intro d hd
        rw [calcGlobalLoadRemove, active_setRq_of_ne _ hd]
        rfl
      have hmove := h.move hactive hbalance
      rw [Par.move, Function.update_eq_self] at hmove
      exact hmove
  | upPrepare c =>
      refine h.congr rfl fun d => ?_
      rcases eq_or_ne d c with rfl | hd
      · exact active_setRq_self s.mem d _
      · exact active_setRq_of_ne s.mem hd _

theorem Interleaved.conserved {cfg : Config} {jiffies : BitVec cfg.wordSize}
    {s : Par cfg.wordSize C} (h : Interleaved cfg jiffies s) : Conserved s := by
  induction h with
  | init =>
      have hsum : ∀ x : BitVec cfg.wordSize, x = 0 → ∑ _c : C, x = 0 := by
        rintro _ rfl
        exact Finset.sum_const_zero
      change (0 + 0 + 0 : BitVec cfg.wordSize) + ∑ _c : C, 0 = ∑ _c : C, 0
      rw [hsum 0 rfl]
      ring
  | step _ ha ih => exact ih.parStep ha

/-- **No delta is lost and none is counted twice**, in whatever order the processors make their
accesses: `calc_load_tasks`, the idle counters and what is pending add up to the loads that have
been folded.  So when nothing is pending and every processor has folded its load, they add up to the
load of the machine. -/
theorem calc_load_tasks_conserved {cfg : Config} {jiffies : BitVec cfg.wordSize}
    {s : Par cfg.wordSize C} (h : Interleaved cfg jiffies s) :
    s.mem.calcLoadTasks + s.mem.calcLoadIdle false + s.mem.calcLoadIdle true
        + ∑ c, (s.pc c).pending = ∑ c, (s.mem.rq c).calcLoadActive ∧
      ((∀ c, s.pc c = .out) → (∀ c, (s.mem.rq c).calcLoadActive = (s.mem.rq c).nrActive) →
        s.mem.calcLoadTasks + s.mem.calcLoadIdle false + s.mem.calcLoadIdle true
          = ∑ c, (s.mem.rq c).nrActive) := by
  refine ⟨h.conserved, fun hout hfolded => ?_⟩
  have hpending : ∑ c, (s.pc c).pending = 0 := by
    refine Finset.sum_eq_zero fun c _ => ?_
    rw [hout c]
    rfl
  have hconserved := h.conserved
  rw [Conserved, hpending, add_zero] at hconserved
  rw [← Finset.sum_congr rfl fun c _ => hfolded c]
  exact hconserved

/-- Of two processors one goes idle and has folded its task, but not yet added the delta. -/
theorem calc_load_tasks_conserved_two :
    ∃ s : Par smallBuild.wordSize Bool, Interleaved smallBuild 0 s ∧ (s.pc false).pending = 1 ∧
      s.mem.calcLoadTasks + s.mem.calcLoadIdle false + s.mem.calcLoadIdle true
        + ∑ c, (s.pc c).pending = ∑ c, (s.mem.rq c).calcLoadActive ∧
      ((∀ c, s.pc c = .out) → (∀ c, (s.mem.rq c).calcLoadActive = (s.mem.rq c).nrActive) →
        s.mem.calcLoadTasks + s.mem.calcLoadIdle false + s.mem.calcLoadIdle true
          = ∑ c, (s.mem.rq c).nrActive) := by
  have hinit : Interleaved smallBuild 0 (⟨init smallBuild 0, fun _ => .out⟩ : Par _ Bool) := .init
  have hload := hinit.step (a := .setLoad false 1 0) trivial
  have hfold := hload.step (a := .enterIdle false) rfl
  refine ⟨_, hfold, ?_, calc_load_tasks_conserved hfold⟩
  decide +kernel

end

end Load
