import Mathlib.Data.BitVec
import Mathlib.Data.Fin.VecNotation
import Mathlib.Logic.Function.Basic

/-!
# The load average

The global load average of `core.c`, in the build with `CONFIG_NO_HZ`.  The processors fold what
their load has changed by into `calc_load_tasks`, or into one of two idle counters when they stop
their tick, and once in `LOAD_FREQ` the averages are computed from there.

`C` are the processors.  Longs are machine words, and so is the time.
-/

namespace Load

/-! ## Constants -/

/-- `FSHIFT` -/
def fshift : ℕ := 11

/-- `FIXED_1` -/
def fixed1 : ℕ := 1 <<< fshift

/-- `EXP_1`, `EXP_5`, `EXP_15` -/
def exps : Fin 3 → ℕ := ![1884, 2014, 2037]

/-- The build. -/
structure Config where
  hz : ℕ
  /-- the window of ten ticks is shorter than the interval -/
  hz_ge : 10 ≤ hz
  hz_le : hz ≤ 10000
  /-- the bits of an `unsigned long` -/
  wordSize : ℕ
  wordSize_gt : 31 < wordSize

lemma Config.wordSize_ge (cfg : Config) : 32 ≤ cfg.wordSize := cfg.wordSize_gt

/-- A hundred ticks in a second, and words of 32 bits. -/
def smallBuild : Config := ⟨100, by decide, by decide, 32, by decide⟩

/-- `LOAD_FREQ` -/
def loadFreq (cfg : Config) : ℕ := 5 * cfg.hz + 1

section Word

variable {w : ℕ}

/-- `time_before` -/
def timeBefore (a b : BitVec w) : Bool := decide ((a - b).toInt < 0)

/-! ## The arithmetic -/

/-- `calc_load` -/
def calcLoad (load exp active : BitVec w) : BitVec w :=
  (load * exp + active * (BitVec.ofNat w fixed1 - exp) + BitVec.ofNat w (1 <<< (fshift - 1)))
    >>> fshift

/-- The loop of `fixed_power_int`; `n` has at most `fuel` digits. -/
def fixedPowerLoop (fracBits : ℕ) : ℕ → BitVec w → BitVec w → BitVec 32 → BitVec w
  | 0, result, _, _ => result
  | fuel + 1, result, x, n =>
      let result :=
        if n &&& 1 = 1 then (result * x + BitVec.ofNat w (1 <<< (fracBits - 1))) >>> fracBits
        else result
      if n >>> 1 = 0 then result
      else fixedPowerLoop fracBits fuel result
        ((x * x + BitVec.ofNat w (1 <<< (fracBits - 1))) >>> fracBits) (n >>> 1)

/-- `fixed_power_int` -/
def fixedPowerInt (x : BitVec w) (fracBits : ℕ) (n : BitVec 32) : BitVec w :=
  if n = 0 then BitVec.ofNat w (1 <<< fracBits)
  else fixedPowerLoop fracBits 32 (BitVec.ofNat w (1 <<< fracBits)) x n

/-- `calc_load_n` -/
def calcLoadN (load exp active : BitVec w) (n : BitVec 32) : BitVec w :=
  calcLoad load (fixedPowerInt exp fshift n) active

/-- `active > 0 ? active * FIXED_1 : 0` -/
def activeLoad (tasks : BitVec w) : BitVec w :=
  if 0 < tasks.toInt then tasks * BitVec.ofNat w fixed1 else 0

end Word

/-! ## The state -/

/-- What the load average reads and writes of `struct rq`. -/
structure Rq (w : ℕ) where
  nrRunning : BitVec w
  nrUninterruptible : BitVec w
  calcLoadActive : BitVec w
  calcLoadUpdate : BitVec w

structure Mem (w : ℕ) (C : Type) where
  jiffies : BitVec w
  rq : C → Rq w
  calcLoadTasks : BitVec w
  /-- the counters `calc_load_idle`, by the last bit of the index -/
  calcLoadIdle : Bool → BitVec w
  calcLoadIdx : BitVec 32
  calcLoadUpdate : BitVec w
  avenrun : Fin 3 → BitVec w

section

variable {w : ℕ} {C : Type} [DecidableEq C]

/-- `nr_active` -/
def Rq.nrActive (rq : Rq w) : BitVec w := rq.nrRunning + rq.nrUninterruptible

/-- `calc_load_fold_active` -/
def calcLoadFoldActive (rq : Rq w) : BitVec w × Rq w :=
  if rq.nrActive ≠ rq.calcLoadActive then
    (rq.nrActive - rq.calcLoadActive, { rq with calcLoadActive := rq.nrActive })
  else (0, rq)

/-- `calc_load_update += LOAD_FREQ` -/
def Rq.nextUpdate (cfg : Config) (rq : Rq w) : Rq w :=
  { rq with calcLoadUpdate := rq.calcLoadUpdate + BitVec.ofNat w (loadFreq cfg) }

/-- Write the fields of a processor. -/
def Mem.setRq (m : Mem w C) (c : C) (rq : Rq w) : Mem w C :=
  { m with rq := Function.update m.rq c rq }

/-- `atomic_long_add` on `calc_load_tasks` -/
def Mem.addTasks (m : Mem w C) (delta : BitVec w) : Mem w C :=
  { m with calcLoadTasks := m.calcLoadTasks + delta }

/-- `atomic_long_add` on `calc_load_idle[idx]` -/
def Mem.addIdle (m : Mem w C) (idx : Bool) (delta : BitVec w) : Mem w C :=
  { m with calcLoadIdle := Function.update m.calcLoadIdle idx (m.calcLoadIdle idx + delta) }

/-! ## The functions -/

/-- The counter to write to, where `calc_load_write_idx` has read the index `idx`. -/
def writeIdx (m : Mem w C) (idx : BitVec 32) : Bool :=
  (if timeBefore m.jiffies m.calcLoadUpdate then idx else idx + 1) &&& 1 = 1

/-- `calc_load_write_idx` -/
def calcLoadWriteIdx (m : Mem w C) : Bool := writeIdx m m.calcLoadIdx

/-- `calc_load_read_idx` -/
def calcLoadReadIdx (m : Mem w C) : Bool := m.calcLoadIdx &&& 1 = 1

/-- `calc_load_enter_idle` on the processor `c` -/
def calcLoadEnterIdle (m : Mem w C) (c : C) : Mem w C :=
  let folded := calcLoadFoldActive (m.rq c)
  let m := m.setRq c folded.2
  if folded.1 ≠ 0 then m.addIdle (calcLoadWriteIdx m) folded.1 else m

/-- `calc_load_exit_idle` on the processor `c` -/
def calcLoadExitIdle (cfg : Config) (m : Mem w C) (c : C) : Mem w C :=
  if timeBefore m.jiffies (m.rq c).calcLoadUpdate then m
  else if timeBefore m.jiffies (m.calcLoadUpdate + 10) then
    m.setRq c { m.rq c with calcLoadUpdate := m.calcLoadUpdate + BitVec.ofNat w (loadFreq cfg) }
  else m.setRq c { m.rq c with calcLoadUpdate := m.calcLoadUpdate }

/-- `calc_load_fold_idle` -/
def calcLoadFoldIdle (m : Mem w C) : BitVec w × Mem w C :=
  let idx := calcLoadReadIdx m
  if m.calcLoadIdle idx ≠ 0 then
    (m.calcLoadIdle idx, { m with calcLoadIdle := Function.update m.calcLoadIdle idx 0 })
  else (0, m)

/-- The intervals that `calc_global_nohz` is behind. -/
def missedUpdates (cfg : Config) (m : Mem w C) : BitVec w :=
  1 + (m.jiffies - m.calcLoadUpdate - 10).sdiv (BitVec.ofNat w (loadFreq cfg))

/-- The first part of `calc_global_nohz`: the missed intervals. -/
def catchUp (cfg : Config) (m : Mem w C) : Mem w C :=
  if timeBefore m.jiffies (m.calcLoadUpdate + 10) then m
  else
    { m with
      avenrun := fun i => calcLoadN (m.avenrun i) (BitVec.ofNat w (exps i))
        (activeLoad m.calcLoadTasks) ((missedUpdates cfg m).setWidth 32)
      calcLoadUpdate :=
        m.calcLoadUpdate + missedUpdates cfg m * BitVec.ofNat w (loadFreq cfg) }

/-- `calc_load_idx++` -/
def Mem.flipIdx (m : Mem w C) : Mem w C := { m with calcLoadIdx := m.calcLoadIdx + 1 }

/-- `calc_global_nohz` -/
def calcGlobalNohz (cfg : Config) (m : Mem w C) : Mem w C := (catchUp cfg m).flipIdx

/-- The sample of `calc_global_load`. -/
def sample (cfg : Config) (m : Mem w C) : Mem w C :=
  { m with
    avenrun := fun i =>
      calcLoad (m.avenrun i) (BitVec.ofNat w (exps i)) (activeLoad m.calcLoadTasks)
    calcLoadUpdate := m.calcLoadUpdate + BitVec.ofNat w (loadFreq cfg) }

/-- `calc_global_load` -/
def calcGlobalLoad (cfg : Config) (m : Mem w C) : Mem w C :=
  if timeBefore m.jiffies (m.calcLoadUpdate + 10) then m
  else
    let folded := calcLoadFoldIdle m
    let m := if folded.1 ≠ 0 then folded.2.addTasks folded.1 else folded.2
    calcGlobalNohz cfg (sample cfg m)

/-- `calc_load_account_active` on the processor `c` -/
def calcLoadAccountActive (cfg : Config) (m : Mem w C) (c : C) : Mem w C :=
  if timeBefore m.jiffies (m.rq c).calcLoadUpdate then m
  else
    let folded := calcLoadFoldActive (m.rq c)
    let m := m.setRq c (folded.2.nextUpdate cfg)
    if folded.1 ≠ 0 then m.addTasks folded.1 else m

/-! ## Processors come and go -/

/-- `migrate_nr_uninterruptible`, to the processor `dest` -/
def migrateNrUninterruptible (m : Mem w C) (src dest : C) : Mem w C :=
  let m := m.setRq dest { m.rq dest with
    nrUninterruptible := (m.rq dest).nrUninterruptible + (m.rq src).nrUninterruptible }
  m.setRq src { m.rq src with nrUninterruptible := 0 }

/-- `calc_global_load_remove` -/
def calcGlobalLoadRemove (m : Mem w C) (c : C) : Mem w C :=
  (m.addTasks (-(m.rq c).calcLoadActive)).setRq c { m.rq c with calcLoadActive := 0 }

/-- `CPU_UP_PREPARE` in `migration_call` -/
def cpuUpPrepare (m : Mem w C) (c : C) : Mem w C :=
  m.setRq c { m.rq c with calcLoadUpdate := m.calcLoadUpdate }

/-- What `sched_init` sets. -/
def init (cfg : Config) (jiffies : BitVec cfg.wordSize) : Mem cfg.wordSize C where
  jiffies := jiffies
  rq := fun _ => {
    nrRunning := 0
    nrUninterruptible := 0
    calcLoadActive := 0
    calcLoadUpdate := jiffies + BitVec.ofNat _ (loadFreq cfg) }
  calcLoadTasks := 0
  calcLoadIdle := fun _ => 0
  calcLoadIdx := 0
  calcLoadUpdate := jiffies + BitVec.ofNat _ (loadFreq cfg)
  avenrun := fun _ => 0

end

end Load
