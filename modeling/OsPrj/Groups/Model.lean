import OsPrj.Sched.Ops

/-!
# Task groups

The hierarchy of task groups of `core.c` and the two bandwidth controls that are admitted along it,
that of the real-time class and that of the fair class (`CONFIG_CGROUP_SCHED`,
`CONFIG_RT_GROUP_SCHED` and `CONFIG_CFS_BANDWIDTH` set).

A group is an address `G`; its `children` head and its `siblings` entry are the two
`struct list_head`s of `ListHead.Node G G`.  The loops that C leaves unbounded take fuel.  What
the setters go on to write in the queues of each processor is left out.
-/

namespace Groups

open ListHead
open Sched (runtimeInf einval)

/-- `-ENOMEM` -/
def enomem : ℤ := -12

/-- `-EBUSY` -/
def ebusy : ℤ := -16

def nsecPerUsec : BitVec 64 := 1000
def nsecPerMsec : BitVec 64 := 1000000
def nsecPerSec : BitVec 64 := 1000000000

/-! ## Memory -/

/-- `struct rt_bandwidth` -/
structure RtBandwidth where
  rtPeriod : BitVec 64
  rtRuntime : BitVec 64

/-- `struct cfs_bandwidth`; `hierarchalQuota` is an `s64`. -/
structure CfsBandwidth where
  period : BitVec 64
  quota : BitVec 64
  hierarchalQuota : BitVec 64

/-- `struct task_group`, without the words of its list heads. -/
structure TaskGroup (G : Type) where
  parent : Option G
  rtBandwidth : RtBandwidth
  cfsBandwidth : CfsBandwidth

/-- The groups and the variables of the bandwidth controls.  `rtTask` says whether the system has a
task with `rt_task(p)`. -/
structure Mem (G : Type) where
  links : Links (Node G G)
  group : G → TaskGroup G
  rootTaskGroup : G
  /-- the list `task_groups` -/
  taskGroups : List G
  sysctlSchedRtPeriod : BitVec 32
  sysctlSchedRtRuntime : BitVec 32
  defRtBandwidth : RtBandwidth
  rtTask : Bool

/-- The ways an execution leaves what C defines. -/
inductive Fault where
  /-- a list head read as if it were a group -/
  | notAGroup
  | outOfFuel
  deriving DecidableEq

lemma exists_of_bind_ok {α β : Type} {x : Except Fault α} {f : α → Except Fault β} {b : β}
    (h : x >>= f = .ok b) : ∃ a, x = .ok a ∧ f a = .ok b := by
  cases x with
  | error e => nomatch h
  | ok a => exact ⟨a, rfl, h⟩

/-- The bits of a `long`, and what `init_cfs_bandwidth` of `fair.c` sets. -/
structure Config where
  wordSize : ℕ
  wordSize_ge : 32 ≤ wordSize
  wordSize_le : wordSize ≤ 64
  initCfsBandwidth : CfsBandwidth

section

variable {G : Type} [DecidableEq G] (cfg : Config)

/-- Write fields of a group. -/
def Mem.setGroup (m : Mem G) (tg : G) (f : TaskGroup G → TaskGroup G) : Mem G :=
  { m with group := Function.update m.group tg (f (m.group tg)) }

@[simp] lemma Mem.setGroup_group_self (m : Mem G) (tg : G) (f : TaskGroup G → TaskGroup G) :
    (m.setGroup tg f).group tg = f (m.group tg) :=
  Function.update_self _ _ _

lemma Mem.setGroup_group_of_ne (m : Mem G) {tg g : G} (hne : g ≠ tg)
    (f : TaskGroup G → TaskGroup G) : (m.setGroup tg f).group g = m.group g :=
  Function.update_of_ne hne _ _

/-! ## walk_tg_tree -/

/-- `tg_visitor`, with the memory it reads and writes. -/
abbrev Visitor (G : Type) := G → Mem G → Except Fault (ℤ × Mem G)

/-- Where `walk_tg_tree_from` is: at the label `down`, or in the loop over the children of `parent`
before the entry `child` is looked at. -/
inductive Pc (G : Type) where
  | down (parent : G)
  | loop (parent : G) (child : Node G G)

/-- `list_entry(pos, struct task_group, siblings)` -/
def listEntrySiblings : Node G G → Except Fault G
  | .node tg => .ok tg
  | .head _ => .error .notAGroup

/-- `walk_tg_tree_from(start, down, up, data)`, from `pc` on. -/
def walkTgTreeFrom (start : G) (down up : Visitor G) :
    ℕ → Pc G → Mem G → Except Fault (ℤ × Mem G)
  | 0, _, _ => .error .outOfFuel
  | fuel + 1, .down parent, m => do
      let (ret, m) ← down parent m
      if ret ≠ 0 then pure (ret, m)
      else walkTgTreeFrom start down up fuel (.loop parent (m.links.next (.head parent))) m
  | fuel + 1, .loop parent child, m =>
      if child ≠ .head parent then do
        let parent ← listEntrySiblings child
        walkTgTreeFrom start down up fuel (.down parent) m
      else do
        let (ret, m) ← up parent m
        if ret ≠ 0 ∨ parent = start then pure (ret, m)
        else
          match (m.group parent).parent with
          | none => pure (ret, m)
          | some p =>
              -- `goto up`: the loop over the children of `p` goes on after `parent`
              walkTgTreeFrom start down up fuel (.loop p (m.links.next (.node parent))) m

/-- `tg_nop` -/
def tgNop : Visitor G := fun _ m => pure (0, m)

/-- `walk_tg_tree` -/
def walkTgTree (down up : Visitor G) (fuel : ℕ) (m : Mem G) : Except Fault (ℤ × Mem G) :=
  walkTgTreeFrom m.rootTaskGroup down up fuel (.down m.rootTaskGroup) m

/-! ## Bandwidth of the real-time class -/

/-- `sysctl_sched_rt_period * NSEC_PER_USEC` -/
def globalRtPeriod (m : Mem G) : BitVec 64 := m.sysctlSchedRtPeriod.setWidth 64 * nsecPerUsec

def globalRtRuntime (m : Mem G) : BitVec 64 :=
  if m.sysctlSchedRtRuntime.msb then runtimeInf
  else m.sysctlSchedRtRuntime.signExtend 64 * nsecPerUsec

def rtBandwidthEnabled (m : Mem G) : Bool := !m.sysctlSchedRtRuntime.msb

/-- `to_ratio`, as an `unsigned long`. -/
def toRatio (period runtime : BitVec 64) : ℕ :=
  if runtime = runtimeInf then 2 ^ 20 % 2 ^ cfg.wordSize
  else ((runtime <<< 20) / period).toNat % 2 ^ cfg.wordSize

/-- `task_rq(p)->rt.tg == tg` for some RT task `p`; the queue `rt` of a processor belongs to the
root group. -/
def tgHasRtTasks (m : Mem G) (tg : G) : Bool := m.rtTask && tg == m.rootTaskGroup

/-- `struct rt_schedulable_data` -/
structure RtSchedulableData (G : Type) where
  tg : Option G
  rtPeriod : BitVec 64
  rtRuntime : BitVec 64

/-- The bandwidth that `tg_rt_schedulable` checks a group with: its own, or that of `d`. -/
def rtAsked (d : RtSchedulableData G) (m : Mem G) (tg : G) : RtBandwidth :=
  if d.tg = some tg then ⟨d.rtPeriod, d.rtRuntime⟩ else (m.group tg).rtBandwidth

def tgRtSchedulable (d : RtSchedulableData G) (fuel : ℕ) : Visitor G := fun tg m =>
  let b := rtAsked d m tg
  if b.rtPeriod < b.rtRuntime ∧ b.rtRuntime ≠ runtimeInf then pure (einval, m)
  else if rtBandwidthEnabled m ∧ b.rtRuntime = 0 ∧ tgHasRtTasks m tg then pure (ebusy, m)
  else
    let total := toRatio cfg b.rtPeriod b.rtRuntime
    if toRatio cfg (globalRtPeriod m) (globalRtRuntime m) < total then pure (einval, m)
    else
      let add := fun child sum =>
        (sum + toRatio cfg (rtAsked d m child).rtPeriod (rtAsked d m child).rtRuntime)
          % 2 ^ cfg.wordSize
      match forEachFrom m.links tg add fuel (m.links.next (.head tg)) 0 with
      | none => .error .outOfFuel
      | some sum => if total < sum then pure (einval, m) else pure (0, m)

/-- `__rt_schedulable` -/
def rtSchedulable (fuel : ℕ) (tg : Option G) (period runtime : BitVec 64) (m : Mem G) :
    Except Fault (ℤ × Mem G) :=
  walkTgTree (tgRtSchedulable cfg ⟨tg, period, runtime⟩ fuel) tgNop fuel m

def tgSetRtBandwidth (fuel : ℕ) (tg : G) (rtPeriod rtRuntime : BitVec 64) (m : Mem G) :
    Except Fault (ℤ × Mem G) := do
  let (err, m) ← rtSchedulable cfg fuel (some tg) rtPeriod rtRuntime m
  if err ≠ 0 then pure (err, m)
  else pure (err, m.setGroup tg fun g => { g with rtBandwidth := ⟨rtPeriod, rtRuntime⟩ })

/-- `cpu_rt_runtime_write`, `sched_group_set_rt_runtime` -/
def schedGroupSetRtRuntime (fuel : ℕ) (tg : G) (val : BitVec 64) (m : Mem G) :
    Except Fault (ℤ × Mem G) :=
  let rtRuntimeUs := val.setWidth cfg.wordSize
  let rtRuntime :=
    if rtRuntimeUs.msb then runtimeInf else rtRuntimeUs.signExtend 64 * nsecPerUsec
  tgSetRtBandwidth cfg fuel tg (m.group tg).rtBandwidth.rtPeriod rtRuntime m

/-- `sched_group_rt_runtime`, `cpu_rt_runtime_read` -/
def schedGroupRtRuntime (m : Mem G) (tg : G) : BitVec 64 :=
  if (m.group tg).rtBandwidth.rtRuntime = runtimeInf then -1
  else (((m.group tg).rtBandwidth.rtRuntime / nsecPerUsec).setWidth cfg.wordSize).signExtend 64

/-- `cpu_rt_period_write_uint`, `sched_group_set_rt_period` -/
def schedGroupSetRtPeriod (fuel : ℕ) (tg : G) (val : BitVec 64) (m : Mem G) :
    Except Fault (ℤ × Mem G) :=
  let rtPeriod := (val.setWidth cfg.wordSize).signExtend 64 * nsecPerUsec
  if rtPeriod = 0 then pure (einval, m)
  else tgSetRtBandwidth cfg fuel tg rtPeriod (m.group tg).rtBandwidth.rtRuntime m

/-- `sched_group_rt_period`, `cpu_rt_period_read_uint` -/
def schedGroupRtPeriod (m : Mem G) (tg : G) : BitVec 64 :=
  (((m.group tg).rtBandwidth.rtPeriod / nsecPerUsec).setWidth cfg.wordSize).signExtend 64

def schedRtGlobalConstraints (fuel : ℕ) (m : Mem G) : Except Fault (ℤ × Mem G) :=
  if m.sysctlSchedRtPeriod = 0 then pure (einval, m)
  else if globalRtPeriod m < globalRtRuntime m ∧ globalRtRuntime m ≠ runtimeInf then
    pure (einval, m)
  else rtSchedulable cfg fuel none 0 0 m

/-- `sched_rt_handler`, where `proc_dointvec` has written `period` and `runtime`. -/
def schedRtHandler (fuel : ℕ) (period runtime : BitVec 32) (m : Mem G) :
    Except Fault (ℤ × Mem G) := do
  let oldPeriod := m.sysctlSchedRtPeriod
  let oldRuntime := m.sysctlSchedRtRuntime
  let (ret, m) ← schedRtGlobalConstraints cfg fuel
    { m with sysctlSchedRtPeriod := period, sysctlSchedRtRuntime := runtime }
  if ret ≠ 0 then
    pure (ret, { m with sysctlSchedRtPeriod := oldPeriod, sysctlSchedRtRuntime := oldRuntime })
  else pure (ret, { m with defRtBandwidth := ⟨globalRtPeriod m, globalRtRuntime m⟩ })

/-! ## Bandwidth of the fair class -/

/-- `max_cfs_quota_period` -/
def maxCfsQuotaPeriod : BitVec 64 := 1 * nsecPerSec

/-- `min_cfs_quota_period` -/
def minCfsQuotaPeriod : BitVec 64 := 1 * nsecPerMsec

/-- `tg_get_cfs_quota`, as an `s64`. -/
def tgGetCfsQuota (m : Mem G) (tg : G) : BitVec 64 :=
  if (m.group tg).cfsBandwidth.quota = runtimeInf then -1
  else (((m.group tg).cfsBandwidth.quota / nsecPerUsec).setWidth cfg.wordSize).signExtend 64

/-- `tg_get_cfs_period`, as an `s64`. -/
def tgGetCfsPeriod (m : Mem G) (tg : G) : BitVec 64 :=
  (((m.group tg).cfsBandwidth.period / nsecPerUsec).setWidth cfg.wordSize).signExtend 64

/-- `struct cfs_schedulable_data` -/
structure CfsSchedulableData (G : Type) where
  tg : G
  period : BitVec 64
  quota : BitVec 64

def normalizeCfsQuota (d : CfsSchedulableData G) (m : Mem G) (tg : G) : BitVec 64 :=
  let period := if tg = d.tg then d.period else tgGetCfsPeriod cfg m tg
  let quota := if tg = d.tg then d.quota else tgGetCfsQuota cfg m tg
  if quota = runtimeInf ∨ quota = -1 then runtimeInf else BitVec.ofNat 64 (toRatio cfg period quota)

/-- `cfs_b->hierarchal_quota = quota` -/
def setHierarchalQuota (m : Mem G) (tg : G) (quota : BitVec 64) : Mem G :=
  m.setGroup tg fun g => { g with cfsBandwidth := { g.cfsBandwidth with hierarchalQuota := quota } }

def tgCfsSchedulableDown (d : CfsSchedulableData G) : Visitor G := fun tg m =>
  match (m.group tg).parent with
  | none => pure (0, setHierarchalQuota m tg runtimeInf)
  | some parent =>
      let quota := normalizeCfsQuota cfg d m tg
      let parentQuota := (m.group parent).cfsBandwidth.hierarchalQuota
      if quota = runtimeInf then pure (0, setHierarchalQuota m tg parentQuota)
      else if parentQuota ≠ runtimeInf ∧ parentQuota.slt quota then pure (einval, m)
      else pure (0, setHierarchalQuota m tg quota)

/-- `__cfs_schedulable` -/
def cfsSchedulable (fuel : ℕ) (tg : G) (period quota : BitVec 64) (m : Mem G) :
    Except Fault (ℤ × Mem G) :=
  let d : CfsSchedulableData G :=
    if quota ≠ runtimeInf then ⟨tg, period / nsecPerUsec, quota / nsecPerUsec⟩
    else ⟨tg, period, quota⟩
  walkTgTree (tgCfsSchedulableDown cfg d) tgNop fuel m

def tgSetCfsBandwidth (fuel : ℕ) (tg : G) (period quota : BitVec 64) (m : Mem G) :
    Except Fault (ℤ × Mem G) :=
  if tg = m.rootTaskGroup then pure (einval, m)
  else if quota < minCfsQuotaPeriod ∨ period < minCfsQuotaPeriod then pure (einval, m)
  else if maxCfsQuotaPeriod < period then pure (einval, m)
  else do
    let (ret, m) ← cfsSchedulable cfg fuel tg period quota m
    if ret ≠ 0 then pure (ret, m)
    else pure (ret, m.setGroup tg fun g =>
      { g with cfsBandwidth := { g.cfsBandwidth with period := period, quota := quota } })

/-- `cpu_cfs_quota_write_s64`, `tg_set_cfs_quota` -/
def tgSetCfsQuota (fuel : ℕ) (tg : G) (val : BitVec 64) (m : Mem G) : Except Fault (ℤ × Mem G) :=
  let cfsQuotaUs := val.setWidth cfg.wordSize
  let quota := if cfsQuotaUs.msb then runtimeInf else cfsQuotaUs.signExtend 64 * nsecPerUsec
  tgSetCfsBandwidth cfg fuel tg (m.group tg).cfsBandwidth.period quota m

/-- `cpu_cfs_period_write_u64`, `tg_set_cfs_period` -/
def tgSetCfsPeriod (fuel : ℕ) (tg : G) (val : BitVec 64) (m : Mem G) : Except Fault (ℤ × Mem G) :=
  let period := (val.setWidth cfg.wordSize).signExtend 64 * nsecPerUsec
  tgSetCfsBandwidth cfg fuel tg period (m.group tg).cfsBandwidth.quota m

/-! ## Creating and destroying groups -/

/-- The group that `kzalloc`, `alloc_fair_sched_group` and `alloc_rt_sched_group` set up. -/
def allocGroup (m : Mem G) (parent : G) : TaskGroup G where
  parent := some parent
  rtBandwidth := ⟨m.defRtBandwidth.rtPeriod, 0⟩
  cfsBandwidth := cfg.initCfsBandwidth

/-- `sched_create_group`, at the address `tg`; `allocOk` says whether the allocations succeed. -/
def schedCreateGroup (m : Mem G) (parent tg : G) (allocOk : Bool) : ℤ × Mem G :=
  if !allocOk then (enomem, m)
  else
    let links := initListHead m.links (.head tg)
    (0, { m with
      group := Function.update m.group tg (allocGroup cfg m parent)
      taskGroups := tg :: m.taskGroups
      links := listAdd links (.node tg) (.head parent) })

/-- `sched_destroy_group`: `list_del_rcu` leaves the words of the entry as they are, but for the
poison in its `prev`. -/
def schedDestroyGroup (m : Mem G) (tg : G) : Mem G :=
  { m with taskGroups := m.taskGroups.erase tg, links := listDelEntry m.links (.node tg) }

/-! ## Runs -/

/-- What is done to the groups: by `mkdir` and `rmdir` of their directories, by writes to the files
of `cpu_files` and to `/proc/sys/kernel/sched_rt_*`, and by the tasks that become RT tasks. -/
inductive Op (G : Type) where
  | createGroup (parent tg : G) (allocOk : Bool)
  | destroyGroup (tg : G)
  | setRtRuntime (tg : G) (val : BitVec 64)
  | setRtPeriod (tg : G) (val : BitVec 64)
  | rtHandler (period runtime : BitVec 32)
  | setCfsQuota (tg : G) (val : BitVec 64)
  | setCfsPeriod (tg : G) (val : BitVec 64)
  | rtTask (b : Bool)

/-- Fuel for the walks: twice as many events as groups, and two moves for each. -/
def walkFuel (m : Mem G) : ℕ := 4 * m.taskGroups.length + 2

/-- Perform one operation. -/
def step (m : Mem G) : Op G → Except Fault (ℤ × Mem G)
  | .createGroup parent tg allocOk => pure (schedCreateGroup cfg m parent tg allocOk)
  | .destroyGroup tg => pure (0, schedDestroyGroup m tg)
  | .setRtRuntime tg val => schedGroupSetRtRuntime cfg (walkFuel m) tg val m
  | .setRtPeriod tg val => schedGroupSetRtPeriod cfg (walkFuel m) tg val m
  | .rtHandler period runtime => schedRtHandler cfg (walkFuel m) period runtime m
  | .setCfsQuota tg val => tgSetCfsQuota cfg (walkFuel m) tg val m
  | .setCfsPeriod tg val => tgSetCfsPeriod cfg (walkFuel m) tg val m
  | .rtTask b => pure (0, { m with rtTask := b })

/-- When an operation is performed: a new group has an address of its own, and a directory that is
removed is not the root and holds no other. -/
def Allowed (m : Mem G) : Op G → Prop
  | .createGroup parent tg _ => parent ∈ m.taskGroups ∧ tg ∉ m.taskGroups
  | .destroyGroup tg =>
      tg ∈ m.taskGroups ∧ tg ≠ m.rootTaskGroup ∧ listEmpty m.links (.head tg) = true
  | .setRtRuntime tg _ | .setRtPeriod tg _ | .setCfsQuota tg _ | .setCfsPeriod tg _ =>
      tg ∈ m.taskGroups
  | .rtHandler _ _ | .rtTask _ => True

instance (m : Mem G) : (op : Op G) → Decidable (Allowed m op)
  | .createGroup _ _ _ => inferInstanceAs (Decidable (_ ∧ _))
  | .destroyGroup _ => inferInstanceAs (Decidable (_ ∧ _ ∧ _))
  | .setRtRuntime tg _ | .setRtPeriod tg _ | .setCfsQuota tg _ | .setCfsPeriod tg _ =>
      inferInstanceAs (Decidable (tg ∈ m.taskGroups))
  | .rtHandler _ _ | .rtTask _ => .isTrue trivial

/-- The state after `sched_init`. -/
def init (root : G) : Mem G :=
  let global : RtBandwidth := ⟨1000000 * nsecPerUsec, 950000 * nsecPerUsec⟩
  { links := { next := id, prev := id }
    group := fun _ => ⟨none, global, cfg.initCfsBandwidth⟩
    rootTaskGroup := root
    taskGroups := [root]
    sysctlSchedRtPeriod := 1000000
    sysctlSchedRtRuntime := 950000
    defRtBandwidth := global
    rtTask := false }

/-- The states that sequences of operations lead to. -/
inductive Reachable (root : G) : Mem G → Prop where
  | init : Reachable root (init cfg root)
  | step {m m' : Mem G} {op : Op G} {ret : ℤ} :
      Reachable root m → Allowed m op → step cfg m op = .ok (ret, m') → Reachable root m'

end

end Groups
