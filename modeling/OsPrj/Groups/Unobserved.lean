import OsPrj.Groups.CfsBandwidth

/-!
# What a failed check leaves behind

`__cfs_schedulable` writes hierarchical quotas on its way to a group that does not fit, and leaves
them there.  **No later operation shows them**: in two states that differ in nothing else, any
operations return the same values and leave states that again differ in nothing else
(`hierarchal_quota_unobserved`).  On the way it turns out that no operation faults.
-/

namespace Groups

open ListHead Forest
open Sched (runtimeInf einval)

variable {G : Type} [DecidableEq G] {cfg : Config} {m m' m₂ : Mem G} {kids : G → List G}
  {F : Forest G} {tg : G}

/-- What holds of every reachable state. -/
structure Settled (cfg : Config) (m : Mem G) (kids : G → List G) (F : Forest G) : Prop where
  tree : Tree m kids F
  rt : RtSettled cfg m
  cfs : CfsSettled cfg m

lemma Reachable.settled {root : G} (hcfg : CfsDefaults cfg) (h : Reachable cfg root m) :
    ∃ kids F, Settled cfg m kids F := by
  rcases h.tree with ⟨kids, F, ht⟩
  exact ⟨kids, F, ht, h.rtSettled, h.cfsSettled hcfg⟩

omit [DecidableEq G] in
lemma SameQuotas.sameRt (h : SameQuotas m m') : SameRt m m' where
  taskGroups := h.read Mem.taskGroups
  parent := h.parent
  rtBandwidth := h.read rtBandwidthOf
  sysctlSchedRtPeriod := h.read Mem.sysctlSchedRtPeriod
  sysctlSchedRtRuntime := h.read Mem.sysctlSchedRtRuntime
  defRtBandwidth := h.read Mem.defRtBandwidth

lemma Settled.congr (h : Settled cfg m kids F) (hs : SameQuotas m m') : Settled cfg m' kids F where
  tree := h.tree.congr hs.sameTree
  rt := h.rt.congr hs.sameRt
  cfs := h.cfs.settled hs.sameGroups

omit [DecidableEq G] in
lemma SameQuotas.walkFuel (h : SameQuotas m m') : walkFuel m' = walkFuel m := h.read Groups.walkFuel

/-- The same write to a group. -/
lemma SameQuotas.setGroup (h : SameQuotas m m') (tg : G) {f : TaskGroup G → TaskGroup G}
    (hf : ∀ g g' : TaskGroup G, g'.forgetHierarchal = g.forgetHierarchal →
      (f g').forgetHierarchal = (f g).forgetHierarchal) :
    SameQuotas (m.setGroup tg f) (m'.setGroup tg f) := by
  have hgroup : (forgetHierarchal (m'.setGroup tg f)).group
      = (forgetHierarchal (m.setGroup tg f)).group := by
    funext g
    by_cases hg : g = tg
    · simp only [forgetHierarchal, hg, Mem.setGroup_group_self]
      exact hf _ _ (h.group tg)
    · simp only [forgetHierarchal, Mem.setGroup_group_of_ne _ hg]
      exact h.group g
  calc forgetHierarchal (m'.setGroup tg f)
      = { forgetHierarchal m' with group := (forgetHierarchal (m'.setGroup tg f)).group } := rfl
    _ = { forgetHierarchal m with group := (forgetHierarchal (m.setGroup tg f)).group } := by
        rw [hgroup, show forgetHierarchal m' = forgetHierarchal m from h]

/-- Both calls return, and the same value; the states they leave differ in hierarchical quotas
only. -/
def Alike (x y : Except Fault (ℤ × Mem G)) : Prop :=
  ∃ ret s t, x = .ok (ret, s) ∧ y = .ok (ret, t) ∧ SameQuotas s t

/-! ## The real-time side -/

/-- `__rt_schedulable` does not read the hierarchical quotas. -/
lemma SameQuotas.rtSchedulable (h : SameQuotas m m₂) (ht : Tree m kids F) (o : Option G)
    (period runtime : BitVec 64) :
    ∃ ret, Groups.rtSchedulable cfg (Groups.walkFuel m) o period runtime m = .ok (ret, m) ∧
      Groups.rtSchedulable cfg (Groups.walkFuel m₂) o period runtime m₂ = .ok (ret, m₂) := by
  have hread := h.read fun m => firstError
    (fun a => rtVerdict cfg ⟨o, period, runtime⟩ m (kids a) a) (cons m.rootTaskGroup F nil).preorder
  refine ⟨_, ht.rtSchedulable_eq o period runtime le_rfl, ?_⟩
  rw [(ht.congr h.sameTree).rtSchedulable_eq o period runtime le_rfl]
  exact congrArg (fun ret => Except.ok (ret, m₂)) hread

/-- `tg_set_rt_bandwidth` after the check. -/
lemma tgSetRtBandwidth_of_check {fuel : ℕ} {period runtime : BitVec 64} {ret : ℤ}
    (h : rtSchedulable cfg fuel (some tg) period runtime m = .ok (ret, m)) :
    tgSetRtBandwidth cfg fuel tg period runtime m = .ok (ret, if ret ≠ 0 then m
      else m.setGroup tg fun g => { g with rtBandwidth := ⟨period, runtime⟩ }) := by
  rw [tgSetRtBandwidth, h]
  exact (apply_ite (fun m => Except.ok (ret, m)) _ _ _).symm

lemma SameQuotas.tgSetRtBandwidth (h : SameQuotas m m₂) (ht : Tree m kids F)
    (period runtime : BitVec 64) :
    Alike (Groups.tgSetRtBandwidth cfg (Groups.walkFuel m) tg period runtime m)
      (Groups.tgSetRtBandwidth cfg (Groups.walkFuel m₂) tg period runtime m₂) := by
  rcases h.rtSchedulable ht (some tg) period runtime with ⟨ret, hret, hret₂⟩
  refine ⟨ret, _, _, tgSetRtBandwidth_of_check hret, tgSetRtBandwidth_of_check hret₂, ?_⟩
  split_ifs
  · exact h
  · refine h.setGroup tg fun g g' hg => ?_
    have hparent := congrArg TaskGroup.parent hg
    have hcfs := congrArg TaskGroup.cfsBandwidth hg
    simp only [TaskGroup.forgetHierarchal] at hparent hcfs ⊢
    rw [hparent, hcfs]

/-- `sched_rt_handler` after the checks. -/
lemma schedRtHandler_of_check {fuel : ℕ} {period runtime : BitVec 32} {ret : ℤ}
    (h : schedRtGlobalConstraints cfg fuel (withSysctl m period runtime)
      = .ok (ret, withSysctl m period runtime)) :
    schedRtHandler cfg fuel period runtime m = .ok (ret, if ret ≠ 0 then m
      else { withSysctl m period runtime with defRtBandwidth :=
        ⟨globalRtPeriod (withSysctl m period runtime),
          globalRtRuntime (withSysctl m period runtime)⟩ }) := by
  rw [schedRtHandler]
  change (schedRtGlobalConstraints cfg fuel (withSysctl m period runtime) >>= _) = _
  rw [h]
  exact (apply_ite (fun m => Except.ok (ret, m)) _ _ _).symm

lemma SameQuotas.schedRtHandler (h : SameQuotas m m₂) (ht : Tree m kids F)
    (period runtime : BitVec 32) :
    Alike (Groups.schedRtHandler cfg (Groups.walkFuel m) period runtime m)
      (Groups.schedRtHandler cfg (Groups.walkFuel m₂) period runtime m₂) := by
  have hsys : SameQuotas (withSysctl m period runtime) (withSysctl m₂ period runtime) :=
    h.read fun m => withSysctl m period runtime
  have ht' : Tree (withSysctl m period runtime) kids F := ht.congr ⟨rfl, rfl, rfl, fun _ => rfl⟩
  rcases hsys.rtSchedulable ht' none 0 0 with ⟨ret, hret, hret₂⟩
  have hcheck : ∃ r, schedRtGlobalConstraints cfg (Groups.walkFuel m)
        (withSysctl m period runtime) = .ok (r, withSysctl m period runtime) ∧
      schedRtGlobalConstraints cfg (Groups.walkFuel m₂)
        (withSysctl m₂ period runtime) = .ok (r, withSysctl m₂ period runtime) := by
    by_cases hzero : period = 0
    · exact ⟨einval, if_pos hzero, if_pos hzero⟩
    by_cases hsane : globalRtPeriod (withSysctl m period runtime)
        < globalRtRuntime (withSysctl m period runtime) ∧
        globalRtRuntime (withSysctl m period runtime) ≠ runtimeInf
    · exact ⟨einval, (if_neg hzero).trans (if_pos hsane), (if_neg hzero).trans (if_pos hsane)⟩
    · exact ⟨ret, ((if_neg hzero).trans (if_neg hsane)).trans hret,
        ((if_neg hzero).trans (if_neg hsane)).trans hret₂⟩
  rcases hcheck with ⟨r, hr, hr₂⟩
  refine ⟨r, _, _, schedRtHandler_of_check hr, schedRtHandler_of_check hr₂, ?_⟩
  split_ifs
  · exact h
  · exact hsys.read fun m => { m with defRtBandwidth := ⟨globalRtPeriod m, globalRtRuntime m⟩ }

/-! ## The side of the fair class -/

omit [DecidableEq G] in
lemma SameQuotas.parentOf (h : SameQuotas m m₂) : ParentOf m₂ = ParentOf m := h.sameGroups.parentOf

lemma SameQuotas.cfsAsked (h : SameQuotas m m₂) (tg : G) (period quota : BitVec 64) (a : G) :
    (Groups.cfsAsked m tg period quota a).Same (Groups.cfsAsked m₂ tg period quota a) := by
  by_cases ha : a = tg
  · rw [ha, Groups.cfsAsked, Function.update_self, Groups.cfsAsked, Function.update_self]
    exact ⟨rfl, rfl⟩
  · rw [Groups.cfsAsked, Function.update_of_ne ha, Groups.cfsAsked, Function.update_of_ne ha]
    exact h.bandwidth a

lemma SameQuotas.cfsGrantable (h : SameQuotas m m₂) (tg : G) (period quota : BitVec 64) :
    CfsGrantable cfg m₂ tg period quota ↔ CfsGrantable cfg m tg period quota := by
  have hfits : CfsFits cfg m₂ (Groups.cfsAsked m₂ tg period quota)
      ↔ CfsFits cfg m (Groups.cfsAsked m tg period quota) := by
    rw [CfsFits, CfsFits, h.parentOf]
    simp only [(h.cfsAsked tg period quota _).cfsLimit]
  rw [CfsGrantable, CfsGrantable, hfits, h.sameTree.rootTaskGroup]

lemma SameQuotas.tgSetCfsBandwidth (h : SameQuotas m m₂) (hm : Settled cfg m kids F)
    {period quota : BitVec 64}
    (hquota : quota = runtimeInf ∨ (quota / nsecPerUsec).toNat < 2 ^ (cfg.wordSize - 1)) :
    Alike (Groups.tgSetCfsBandwidth cfg (Groups.walkFuel m) tg period quota m)
      (Groups.tgSetCfsBandwidth cfg (Groups.walkFuel m₂) tg period quota m₂) := by
  have hm₂ := hm.congr h
  rcases hm.cfs.tgSetCfsBandwidth hm.tree tg period hquota with
    ⟨ret, s, hret, hiff, hok, hfail⟩
  rcases hm₂.cfs.tgSetCfsBandwidth hm₂.tree tg period hquota with
    ⟨ret₂, s₂, hret₂, hiff₂, hok₂, hfail₂⟩
  have hzero : ret₂ = 0 ↔ ret = 0 := hiff₂.trans ((h.cfsGrantable tg period quota).trans hiff.symm)
  by_cases hr : ret = 0
  · rcases hok hr with ⟨s', hs', rfl⟩
    rcases hok₂ (hzero.mpr hr) with ⟨s₂', hs₂', rfl⟩
    obtain rfl : ret₂ = ret := (hzero.mpr hr).trans hr.symm
    have hsame : SameQuotas s' s₂' := hs₂'.trans (h.trans hs'.symm)
    refine ⟨ret₂, _, _, hret, hret₂, hsame.setGroup tg fun g g' hg => ?_⟩
    have hparent := congrArg TaskGroup.parent hg
    have hrt := congrArg TaskGroup.rtBandwidth hg
    simp only [TaskGroup.forgetHierarchal] at hparent hrt ⊢
    rw [hparent, hrt]
  · rcases hfail hr with ⟨rfl, hs⟩
    rcases hfail₂ fun heq => hr (hzero.mp heq) with ⟨rfl, hs₂⟩
    exact ⟨einval, s, s₂, hret, hret₂, hs₂.trans (h.trans hs.symm)⟩

/-! ## Runs -/

/-- Perform operations one after the other, whatever they return. -/
def runRets (cfg : Config) : Mem G → List (Op G) → Except Fault (List ℤ × Mem G)
  | m, [] => pure ([], m)
  | m, op :: ops => do
      let (ret, m) ← step cfg m op
      let (rets, m) ← runRets cfg m ops
      pure (ret :: rets, m)

/-- Each operation is allowed when it comes. -/
def AllowedAll (cfg : Config) : Mem G → List (Op G) → Prop
  | _, [] => True
  | m, op :: ops =>
      Allowed m op ∧ ∀ ret m', step cfg m op = .ok (ret, m') → AllowedAll cfg m' ops

lemma SameQuotas.step (h : SameQuotas m m₂) (hm : Settled cfg m kids F) {op : Op G}
    (hop : Allowed m op) : Alike (Groups.step cfg m op) (Groups.step cfg m₂ op) := by
  cases op with
  | createGroup parent tg allocOk =>
      cases allocOk with
      | false => exact ⟨enomem, m, m₂, rfl, rfl, h⟩
      | true =>
          refine ⟨0, _, _, rfl, rfl, ?_⟩
          have hgroup : (forgetHierarchal (schedCreateGroup cfg m₂ parent tg true).2).group
              = (forgetHierarchal (schedCreateGroup cfg m parent tg true).2).group := by
            funext g
            change TaskGroup.forgetHierarchal (Function.update m₂.group tg _ g)
              = TaskGroup.forgetHierarchal (Function.update m.group tg _ g)
            by_cases hg : g = tg
            · rw [hg, Function.update_self, Function.update_self, allocGroup, allocGroup,
                h.sameRt.defRtBandwidth]
            · rw [Function.update_of_ne hg, Function.update_of_ne hg]
              exact h.group g
          calc forgetHierarchal (schedCreateGroup cfg m₂ parent tg true).2
              = { (schedCreateGroup cfg (forgetHierarchal m₂) parent tg true).2 with
                  group := (forgetHierarchal (schedCreateGroup cfg m₂ parent tg true).2).group } :=
                rfl
            _ = { (schedCreateGroup cfg (forgetHierarchal m) parent tg true).2 with
                  group :=
                    (forgetHierarchal (schedCreateGroup cfg m parent tg true).2).group } := by
                rw [hgroup, show forgetHierarchal m₂ = forgetHierarchal m from h]
  | destroyGroup tg => exact ⟨0, _, _, rfl, rfl, h.read fun m => schedDestroyGroup m tg⟩
  | setRtRuntime tg val =>
      have hrt : (m₂.group tg).rtBandwidth = (m.group tg).rtBandwidth :=
        congrFun h.sameRt.rtBandwidth tg
      rw [Groups.step, Groups.step, schedGroupSetRtRuntime, schedGroupSetRtRuntime, hrt]
      exact h.tgSetRtBandwidth hm.tree _ _
  | setRtPeriod tg val =>
      have hrt : (m₂.group tg).rtBandwidth = (m.group tg).rtBandwidth :=
        congrFun h.sameRt.rtBandwidth tg
      rw [Groups.step, Groups.step, schedGroupSetRtPeriod, schedGroupSetRtPeriod, hrt]
      split_ifs
      · exact ⟨einval, m, m₂, rfl, rfl, h⟩
      · exact h.tgSetRtBandwidth hm.tree _ _
  | rtHandler period runtime => exact h.schedRtHandler hm.tree period runtime
  | setCfsQuota tg val =>
      have hperiod : (m₂.group tg).cfsBandwidth.period = (m.group tg).cfsBandwidth.period :=
        (h.bandwidth tg).1
      rcases hm.cfs.request_inRange hop rfl with ⟨hquota, -⟩
      rw [Groups.step, Groups.step, tgSetCfsQuota, tgSetCfsQuota, hperiod]
      exact h.tgSetCfsBandwidth hm hquota
  | setCfsPeriod tg val =>
      have hquota' : (m₂.group tg).cfsBandwidth.quota = (m.group tg).cfsBandwidth.quota :=
        (h.bandwidth tg).2
      rcases hm.cfs.request_inRange hop rfl with ⟨hquota, -⟩
      rw [Groups.step, Groups.step, tgSetCfsPeriod, tgSetCfsPeriod, hquota']
      exact h.tgSetCfsBandwidth hm hquota
  | rtTask b =>
      exact ⟨0, _, _, rfl, rfl, h.read fun m => ({ m with rtTask := b } : Mem G)⟩

/-- **What a failed check leaves behind is never seen.**  From a reachable state, and from any state
that differs from it in hierarchical quotas only, the same operations return the same values. -/
theorem hierarchal_quota_unobserved {root : G} (hcfg : CfsDefaults cfg) :
    ∀ {m m₂ : Mem G} (ops : List (Op G)), Reachable cfg root m → SameQuotas m m₂ →
      AllowedAll cfg m ops →
      ∃ rets s t, runRets cfg m ops = .ok (rets, s) ∧ runRets cfg m₂ ops = .ok (rets, t) ∧
        SameQuotas s t
  | m, m₂, [], _, hs, _ => ⟨[], m, m₂, rfl, rfl, hs⟩
  | m, m₂, op :: ops, h, hs, hops => by
      rcases h.settled hcfg with ⟨kids, F, hm⟩
      rcases hs.step hm hops.1 with ⟨ret, m', m₂', hret, hret₂, hs'⟩
      rcases hierarchal_quota_unobserved hcfg ops (h.step hops.1 hret) hs' (hops.2 ret m' hret) with
        ⟨rets, s, t, hrun, hrun₂, hst⟩
      refine ⟨ret :: rets, s, t, ?_, ?_, hst⟩
      · rw [runRets, hret]
        change (runRets cfg m' ops >>= _) = _
        rw [hrun]
        rfl
      · rw [runRets, hret₂]
        change (runRets cfg m₂' ops >>= _) = _
        rw [hrun₂]
        rfl

/-- After `4` has asked for more than `2` has, with and without what the check wrote. -/
theorem hierarchal_quota_unobserved_four :
    ∃ m, runOps smallConfig (init smallConfig 1)
        [.createGroup 1 2 true, .setCfsQuota 2 50000, .createGroup 2 4 true,
          .setCfsQuota 4 60000] = some m ∧
      ∃ rets s t, runRets smallConfig m [.setCfsQuota 4 20000] = .ok (rets, s) ∧
        runRets smallConfig (forgetHierarchal m) [.setCfsQuota 4 20000] = .ok (rets, t) ∧
        SameQuotas s t := by
  have hrun : ∃ m, runOps smallConfig (init smallConfig 1)
      [.createGroup 1 2 true, .setCfsQuota 2 50000, .createGroup 2 4 true,
        .setCfsQuota 4 60000] = some m ∧ 4 ∈ m.taskGroups := Sched.exists_of_any (by decide)
  rcases hrun with ⟨m, hm, hmem⟩
  exact ⟨m, hm, hierarchal_quota_unobserved cfsDefaults_smallConfig [.setCfsQuota 4 20000]
    (Reachable.runOps _ .init hm) rfl ⟨hmem, fun _ _ _ => trivial⟩⟩

end Groups
