import OsPrj.Groups.Steps
import Mathlib.Algebra.Order.BigOperators.Group.List
import Mathlib.Algebra.Order.BigOperators.Group.Finset
import Mathlib.Algebra.Order.Field.Basic
import Mathlib.Algebra.BigOperators.Field
import Mathlib.Data.Rat.Cast.Order
import Mathlib.Tactic.NormNum

/-!
# The admission of real-time bandwidth

* `RtFits` — a group has no more runtime than period, no more than the global limit, and its
  children have together no more than the group.
* `Tree.rtSchedulable_eq` — `__rt_schedulable` reports the first group, in preorder, that does not
  pass.  That the sums of `tg_rt_schedulable` are taken modulo the word size makes no difference.
* `RtSettled` — every group fits, **in every reachable state** (`Reachable.rtSettled`).
-/

namespace Groups

open ListHead Forest
open Sched (runtimeInf einval)

variable {G : Type} [DecidableEq G] {cfg : Config} {m m' : Mem G} {kids : G → List G}
  {F : Forest G} {a tg : G} {fuel : ℕ} {ret : ℤ}

/-! ## Ratios -/

/-- The share of a processor that a bandwidth stands for, in units of `2^-20`. -/
def rtRatio (cfg : Config) (b : RtBandwidth) : ℕ := toRatio cfg b.rtPeriod b.rtRuntime

lemma two_pow_twenty_lt (cfg : Config) : 2 ^ 20 + 2 ^ 20 < 2 ^ cfg.wordSize :=
  lt_of_lt_of_le (by decide) (Nat.pow_le_pow_right (by decide) cfg.wordSize_ge)

lemma toRatio_le {period runtime : BitVec 64} (h : runtime ≤ period ∨ runtime = runtimeInf) :
    toRatio cfg period runtime ≤ 2 ^ 20 := by
  rw [toRatio]
  split_ifs with hinf
  · exact Nat.mod_le _ _
  · have hle : runtime.toNat ≤ period.toNat := BitVec.le_def.mp (h.resolve_right hinf)
    have hshift : (runtime <<< 20).toNat ≤ runtime.toNat * 2 ^ 20 := by
      rw [BitVec.toNat_shiftLeft, Nat.shiftLeft_eq]
      exact Nat.mod_le _ _
    calc ((runtime <<< 20) / period).toNat % 2 ^ cfg.wordSize
        ≤ ((runtime <<< 20) / period).toNat := Nat.mod_le _ _
      _ = (runtime <<< 20).toNat / period.toNat := BitVec.toNat_udiv
      _ ≤ 2 ^ 20 := Nat.div_le_of_le_mul (hshift.trans (Nat.mul_le_mul_right _ hle))

lemma toRatio_zero (period : BitVec 64) : toRatio cfg period 0 = 0 := by
  rw [toRatio, if_neg (by decide), BitVec.toNat_udiv]
  simp

omit [DecidableEq G] in
/-- A sum that wraps at every step wraps once. -/
lemma foldl_add_mod (f : G → ℕ) (n : ℕ) :
    ∀ (l : List G) {s : ℕ}, s < n →
      l.foldl (fun s c => (s + f c) % n) s = (s + (l.map f).sum) % n
  | [], s, hs => by simp [Nat.mod_eq_of_lt hs]
  | c :: l, s, hs => by
      rw [List.foldl_cons, foldl_add_mod f n l (Nat.mod_lt _ (by omega)), List.map_cons,
        List.sum_cons, Nat.mod_add_mod, Nat.add_assoc]

/-- One entry of a sum is another. -/
lemma sum_map_le_of_changed (f f' : G → ℕ) {x : G} (h : ∀ c, c ≠ x → f' c = f c) :
    ∀ {l : List G}, l.Nodup → (l.map f').sum ≤ (l.map f).sum + f' x
  | [], _ => by simp
  | c :: l, hl => by
      rcases List.nodup_cons.mp hl with ⟨hc, hl'⟩
      rw [List.map_cons, List.map_cons, List.sum_cons, List.sum_cons]
      by_cases hcx : c = x
      · subst hcx
        have hsame : l.map f' = l.map f :=
          List.map_congr_left fun b hb => h b fun heq => hc (heq ▸ hb)
        rw [hsame]
        omega
      · have ih := sum_map_le_of_changed f f' h hl'
        rw [h c hcx]
        omega

/-! ## The verdict on one group -/

/-- The first error that `f` gives on a list. -/
def firstError (f : G → ℤ) : List G → ℤ
  | [] => 0
  | a :: l => if f a ≠ 0 then f a else firstError f l

omit [DecidableEq G] in
lemma firstError_eq_zero {f : G → ℤ} : ∀ {l : List G}, firstError f l = 0 ↔ ∀ a ∈ l, f a = 0
  | [] => by simp [firstError]
  | a :: l => by
      rw [firstError, List.forall_mem_cons]
      split_ifs with h
      · simp [h]
      · rw [not_not] at h
        simp [h, firstError_eq_zero (l := l)]

omit [DecidableEq G] in
/-- A walk with a visitor that only reads ends with the first error. -/
lemma visitAll_tgNop {down : Visitor G} {f : G → ℤ} :
    ∀ {l : List (Event G)}, (∀ a ∈ l.filterMap Event.entered, down a m = .ok (f a, m)) →
      visitAll down tgNop l m = .ok (firstError f (l.filterMap Event.entered), m)
  | [], _ => rfl
  | .enter a :: l, h => by
      rw [List.filterMap_cons_some (Event.entered_enter a)] at h ⊢
      have ih := visitAll_tgNop (l := l) fun b hb => h b (List.mem_cons_of_mem a hb)
      rw [visitAll, h a List.mem_cons_self, firstError]
      simp only [bind, Except.bind]
      split_ifs
      · rfl
      · exact ih
  | .leave a :: l, h => by
      rw [List.filterMap_cons_none (Event.entered_leave a)] at h ⊢
      exact visitAll_tgNop (l := l) h

/-- What `tg_rt_schedulable` returns for a group with the children `l`. -/
def rtVerdict (cfg : Config) (d : RtSchedulableData G) (m : Mem G) (l : List G) (tg : G) : ℤ :=
  let b := rtAsked d m
  if (b tg).rtPeriod < (b tg).rtRuntime ∧ (b tg).rtRuntime ≠ runtimeInf then einval
  else if rtBandwidthEnabled m ∧ (b tg).rtRuntime = 0 ∧ tgHasRtTasks m tg then ebusy
  else if toRatio cfg (globalRtPeriod m) (globalRtRuntime m) < rtRatio cfg (b tg) then einval
  else if rtRatio cfg (b tg) < (l.map fun c => rtRatio cfg (b c)).sum % 2 ^ cfg.wordSize then einval
  else 0

lemma Tree.tgRtSchedulable_eq (h : Tree m kids F) (d : RtSchedulableData G)
    (ha : a ∈ m.taskGroups) (hfuel : m.taskGroups.length < fuel) :
    tgRtSchedulable cfg d fuel a m = .ok (rtVerdict cfg d m (kids a) a, m) := by
  have hloop : forEachFrom m.links a (fun child sum => (sum + rtRatio cfg (rtAsked d m child))
      % 2 ^ cfg.wordSize) fuel (m.links.next (.head a)) 0 = some _ :=
    forEachFrom_eq (kids a) 0 (h.visits ha) (lt_of_le_of_lt (h.length_kids_le a) hfuel)
  rw [foldl_add_mod _ _ _ (Nat.two_pow_pos _), Nat.zero_add] at hloop
  rw [tgRtSchedulable, rtVerdict]
  dsimp only
  by_cases h₁ : (rtAsked d m a).rtPeriod < (rtAsked d m a).rtRuntime ∧
      (rtAsked d m a).rtRuntime ≠ runtimeInf
  · rw [if_pos h₁, if_pos h₁]
    rfl
  rw [if_neg h₁, if_neg h₁]
  by_cases h₂ : rtBandwidthEnabled m ∧ (rtAsked d m a).rtRuntime = 0 ∧ tgHasRtTasks m a
  · rw [if_pos h₂, if_pos h₂]
    rfl
  rw [if_neg h₂, if_neg h₂]
  by_cases h₃ : toRatio cfg (globalRtPeriod m) (globalRtRuntime m) < rtRatio cfg (rtAsked d m a)
  · rw [if_pos h₃]
    exact if_pos h₃
  · rw [if_neg h₃, apply_ite (fun ret => Except.ok (ret, m))]
    refine (if_neg h₃).trans ?_
    simp only [rtRatio] at hloop
    rw [hloop]
    rfl

/-- **`__rt_schedulable` returns the first error**, the groups taken in preorder. -/
theorem Tree.rtSchedulable_eq (h : Tree m kids F) (o : Option G) (period runtime : BitVec 64)
    (hfuel : walkFuel m ≤ fuel) :
    rtSchedulable cfg fuel o period runtime m
      = .ok (firstError (fun a => rtVerdict cfg ⟨o, period, runtime⟩ m (kids a) a)
          (cons m.rootTaskGroup F nil).preorder, m) := by
  have hlen := h.perm.length_eq
  rw [length_preorder] at hlen
  rw [walkFuel] at hfuel
  have hkeeps : KeepsTree (tgRtSchedulable cfg (⟨o, period, runtime⟩ : RtSchedulableData G) fuel) :=
    fun _ _ _ _ hv => tgRtSchedulable_mem hv ▸ .refl _
  rw [rtSchedulable, walkTgTree, h.walkTgTreeFrom_eq hkeeps keepsTree_tgNop h.root_mem h.shape.1
    h.shape.2.1 (h.perm.symm.nodup h.nodup) (by omega)]
  rw [← filterMap_entered_events]
  refine visitAll_tgNop fun a ha => ?_
  rw [filterMap_entered_events] at ha
  exact h.tgRtSchedulable_eq _ (h.perm.subset ha) (by omega)

/-! ## What fits -/

/-- The groups whose parent is `a`. -/
def childrenOf (m : Mem G) (a : G) : List G :=
  m.taskGroups.filter fun c => (m.group c).parent = some a

lemma Tree.childrenOf_perm (h : Tree m kids F) (a : G) : (childrenOf m a).Perm (kids a) := by
  refine (List.perm_ext_iff_of_nodup (h.nodup.filter _) (h.nodup_kids a)).mpr fun c => ?_
  rw [List.mem_filter, decide_eq_true_iff]
  exact h.parentOf_iff (a := a) (b := c)

/-- The bandwidth that each group has. -/
def rtBandwidthOf (m : Mem G) (a : G) : RtBandwidth := (m.group a).rtBandwidth

/-- `a` fits between its children and the global limit, if the groups have the bandwidths `b`. -/
structure RtFits (cfg : Config) (m : Mem G) (b : G → RtBandwidth) (a : G) : Prop where
  runtime : (b a).rtRuntime ≤ (b a).rtPeriod ∨ (b a).rtRuntime = runtimeInf
  global : rtRatio cfg (b a) ≤ toRatio cfg (globalRtPeriod m) (globalRtRuntime m)
  children : ((childrenOf m a).map fun c => rtRatio cfg (b c)).sum ≤ rtRatio cfg (b a)

/-- The root group is not left without runtime while the system has an RT task.  Of the other groups
nothing is asked: `tg_has_rt_tasks` compares with the group of `task_rq(p)->rt`, which is the root
group. -/
def RootRtServed (m : Mem G) (b : G → RtBandwidth) : Prop :=
  ¬(rtBandwidthEnabled m = true ∧ (b m.rootTaskGroup).rtRuntime = 0 ∧ m.rtTask = true)

/-- The test for starved RT tasks, made for every group, is one for the root group. -/
lemma Tree.rootRtServed_iff (h : Tree m kids F) (b : G → RtBandwidth) :
    (∀ a ∈ m.taskGroups,
      ¬(rtBandwidthEnabled m = true ∧ (b a).rtRuntime = 0 ∧ tgHasRtTasks m a = true)) ↔
    RootRtServed m b := by
  constructor
  · rintro hall ⟨henabled, hzero, htask⟩
    refine hall m.rootTaskGroup h.root_mem ⟨henabled, hzero, ?_⟩
    rw [tgHasRtTasks, htask, Bool.true_and, beq_self_eq_true]
  · rintro hroot a - ⟨henabled, hzero, htask⟩
    rw [tgHasRtTasks, Bool.and_eq_true, beq_iff_eq] at htask
    rcases htask with ⟨htask, rfl⟩
    exact hroot ⟨henabled, hzero, htask⟩

lemma RtFits.ratio_le {b : G → RtBandwidth} (h : RtFits cfg m b a) : rtRatio cfg (b a) ≤ 2 ^ 20 :=
  toRatio_le h.runtime

/-- The verdict is no error if the group fits, unless the sum over the children wraps. -/
lemma Tree.rtVerdict_eq_zero (h : Tree m kids F) (d : RtSchedulableData G) (a : G)
    (hsum : ((childrenOf m a).map fun c => rtRatio cfg (rtAsked d m c)).sum < 2 ^ cfg.wordSize) :
    rtVerdict cfg d m (kids a) a = 0 ↔
      RtFits cfg m (rtAsked d m) a ∧
      ¬(rtBandwidthEnabled m = true ∧ (rtAsked d m a).rtRuntime = 0 ∧
        tgHasRtTasks m a = true) := by
  have hperm := ((h.childrenOf_perm a).map fun c => rtRatio cfg (rtAsked d m c)).sum_eq
  rw [rtVerdict, ← hperm, Nat.mod_eq_of_lt hsum]
  split_ifs with h₁ h₂ h₃ h₄
  · refine iff_of_false (by decide) fun hfit => ?_
    rcases hfit.1.runtime with hle | hinf
    · exact absurd h₁.1 (BitVec.not_lt.mpr hle)
    · exact h₁.2 hinf
  · exact iff_of_false (by decide) fun hfit => hfit.2 h₂
  · exact iff_of_false (by decide) fun hfit => absurd hfit.1.global (not_le.mpr h₃)
  · exact iff_of_false (by decide) fun hfit => absurd hfit.1.children (not_le.mpr h₄)
  · refine iff_of_true rfl ⟨⟨?_, not_lt.mp h₃, not_lt.mp h₄⟩, h₂⟩
    rw [not_and_or, BitVec.not_lt, not_not] at h₁
    exact h₁

/-- **The check succeeds if and only if every group fits.**  A sum that wraps does not let a bad
request pass: with the bandwidths in memory the children of a group have at most the whole of a
processor, and the request adds at most another. -/
theorem Tree.rtSchedulable_eq_zero (h : Tree m kids F) {o : Option G} {period runtime : BitVec 64}
    (hmem : ∀ x, o = some x → x ∈ m.taskGroups)
    (hold : ∀ a ∈ m.taskGroups,
      ((childrenOf m a).map fun c => rtRatio cfg (rtBandwidthOf m c)).sum ≤ 2 ^ 20) :
    firstError (fun a => rtVerdict cfg ⟨o, period, runtime⟩ m (kids a) a)
        (cons m.rootTaskGroup F nil).preorder = 0 ↔
      (∀ a ∈ m.taskGroups, RtFits cfg m (rtAsked ⟨o, period, runtime⟩ m) a) ∧
        RootRtServed m (rtAsked ⟨o, period, runtime⟩ m) := by
  have hlt := two_pow_twenty_lt cfg
  rw [firstError_eq_zero, ← h.rootRtServed_iff, ← forall₂_and]
  constructor
  · intro hzero a ha
    have hzero' : ∀ x ∈ m.taskGroups, rtVerdict cfg ⟨o, period, runtime⟩ m (kids x) x = 0 :=
      fun x hx => hzero x (h.perm.symm.subset hx)
    refine (h.rtVerdict_eq_zero _ a ?_).mp (hzero' a ha)
    cases o with
    | none => exact lt_of_le_of_lt (hold a ha) (by omega)
    | some x =>
        -- the request itself has passed its first check, so that its ratio is at most `2 ^ 20`
        have hx := hzero' x (hmem x rfl)
        have hruntime : runtime ≤ period ∨ runtime = runtimeInf := by
          rw [rtVerdict, rtAsked, if_pos rfl] at hx
          by_contra hno
          rw [not_or, BitVec.not_le] at hno
          rw [if_pos hno] at hx
          exact absurd hx (by decide)
        have hchanged := sum_map_le_of_changed
          (fun c => rtRatio cfg (rtBandwidthOf m c))
          (fun c => rtRatio cfg (rtAsked ⟨some x, period, runtime⟩ m c)) (x := x)
          (fun c hc => by
            rw [rtAsked, if_neg fun heq => hc (Option.some.inj heq).symm]
            rfl) (l := childrenOf m a) (h.nodup.filter _)
        have hnew : rtRatio cfg (rtAsked ⟨some x, period, runtime⟩ m x) ≤ 2 ^ 20 := by
          rw [rtAsked, if_pos rfl]
          exact toRatio_le hruntime
        have := hold a ha
        omega
  · intro hfit a ha
    have hfita := hfit a (h.perm.subset ha)
    refine (h.rtVerdict_eq_zero _ a ?_).mpr hfita
    exact lt_of_le_of_lt (hfita.1.children.trans hfita.1.ratio_le) (by omega)

lemma rtAsked_some (m : Mem G) (tg : G) (period runtime : BitVec 64) :
    rtAsked ⟨some tg, period, runtime⟩ m
      = Function.update (rtBandwidthOf m) tg ⟨period, runtime⟩ := by
  funext c
  by_cases hc : c = tg
  · rw [hc, Function.update_self, rtAsked, if_pos rfl]
  · rw [Function.update_of_ne hc, rtAsked, if_neg fun heq => hc (Option.some.inj heq).symm]
    rfl

lemma rtAsked_none (m : Mem G) (period runtime : BitVec 64) :
    rtAsked ⟨none, period, runtime⟩ m = rtBandwidthOf m := by
  funext c
  rw [rtAsked, if_neg (by simp)]
  rfl

/-! ## Every group fits -/

/-- The bandwidths of the groups are admitted, and no period is zero, so that `to_ratio` does not
divide by zero. -/
structure RtSettled (cfg : Config) (m : Mem G) : Prop where
  fits : ∀ a ∈ m.taskGroups, RtFits cfg m (rtBandwidthOf m) a
  period : ∀ a ∈ m.taskGroups, (rtBandwidthOf m a).rtPeriod ≠ 0
  defPeriod : m.defRtBandwidth.rtPeriod ≠ 0
  globalPeriod : globalRtPeriod m ≠ 0
  globalRuntime : globalRtRuntime m ≤ globalRtPeriod m ∨ globalRtRuntime m = runtimeInf

omit [DecidableEq G] in
lemma globalRtPeriod_ne_zero (h : m.sysctlSchedRtPeriod ≠ 0) : globalRtPeriod m ≠ 0 := by
  intro hzero
  have hlt := m.sysctlSchedRtPeriod.isLt
  have hnat := congrArg BitVec.toNat hzero
  rw [globalRtPeriod, nsecPerUsec, BitVec.toNat_mul, BitVec.toNat_setWidth,
    Nat.mod_eq_of_lt (by omega : m.sysctlSchedRtPeriod.toNat < 2 ^ 64)] at hnat
  change m.sysctlSchedRtPeriod.toNat * 1000 % 2 ^ 64 = 0 at hnat
  rw [Nat.mod_eq_of_lt (by omega)] at hnat
  refine h (BitVec.eq_of_toNat_eq ?_)
  change m.sysctlSchedRtPeriod.toNat = 0
  omega

lemma RtSettled.sum_le (h : RtSettled cfg m) (ha : a ∈ m.taskGroups) :
    ((childrenOf m a).map fun c => rtRatio cfg (rtBandwidthOf m c)).sum ≤ 2 ^ 20 :=
  (h.fits a ha).children.trans (h.fits a ha).ratio_le

/-- What `RtSettled` reads is the same. -/
structure SameRt (m m' : Mem G) : Prop where
  taskGroups : m'.taskGroups = m.taskGroups
  parent : ∀ g, (m'.group g).parent = (m.group g).parent
  rtBandwidth : rtBandwidthOf m' = rtBandwidthOf m
  sysctlSchedRtPeriod : m'.sysctlSchedRtPeriod = m.sysctlSchedRtPeriod
  sysctlSchedRtRuntime : m'.sysctlSchedRtRuntime = m.sysctlSchedRtRuntime
  defRtBandwidth : m'.defRtBandwidth = m.defRtBandwidth

omit [DecidableEq G] in
lemma SameRt.refl (m : Mem G) : SameRt m m := ⟨rfl, fun _ => rfl, rfl, rfl, rfl, rfl⟩

omit [DecidableEq G] in
lemma SameRt.trans {m m' m'' : Mem G} (h : SameRt m m') (h' : SameRt m' m'') : SameRt m m'' where
  taskGroups := h'.taskGroups.trans h.taskGroups
  parent := fun g => (h'.parent g).trans (h.parent g)
  rtBandwidth := h'.rtBandwidth.trans h.rtBandwidth
  sysctlSchedRtPeriod := h'.sysctlSchedRtPeriod.trans h.sysctlSchedRtPeriod
  sysctlSchedRtRuntime := h'.sysctlSchedRtRuntime.trans h.sysctlSchedRtRuntime
  defRtBandwidth := h'.defRtBandwidth.trans h.defRtBandwidth

lemma childrenOf_congr (htasks : m'.taskGroups = m.taskGroups)
    (hparent : ∀ g, (m'.group g).parent = (m.group g).parent) :
    childrenOf m' a = childrenOf m a := by
  simp only [childrenOf, htasks, hparent]

omit [DecidableEq G] in
lemma SameRt.globalRtPeriod (h : SameRt m m') : globalRtPeriod m' = globalRtPeriod m := by
  rw [Groups.globalRtPeriod, h.sysctlSchedRtPeriod, Groups.globalRtPeriod]

omit [DecidableEq G] in
lemma SameRt.globalRtRuntime (h : SameRt m m') : globalRtRuntime m' = globalRtRuntime m := by
  rw [Groups.globalRtRuntime, h.sysctlSchedRtRuntime, Groups.globalRtRuntime]

lemma RtSettled.congr (h : RtSettled cfg m) (hs : SameRt m m') : RtSettled cfg m' where
  fits := by
    rw [hs.taskGroups, hs.rtBandwidth]
    intro a ha
    have hfit := h.fits a ha
    refine ⟨hfit.runtime, ?_, ?_⟩
    · rw [hs.globalRtPeriod, hs.globalRtRuntime]
      exact hfit.global
    · rw [childrenOf_congr hs.taskGroups hs.parent]
      exact hfit.children
  period := by
    rw [hs.taskGroups, hs.rtBandwidth]
    exact h.period
  defPeriod := by
    rw [hs.defRtBandwidth]
    exact h.defPeriod
  globalPeriod := by
    rw [hs.globalRtPeriod]
    exact h.globalPeriod
  globalRuntime := by
    rw [hs.globalRtPeriod, hs.globalRtRuntime]
    exact h.globalRuntime

/-- A write to a group that leaves alone what `RtSettled` reads. -/
lemma sameRt_setGroup (m : Mem G) (tg : G) {f : TaskGroup G → TaskGroup G}
    (hparent : (f (m.group tg)).parent = (m.group tg).parent)
    (hrt : (f (m.group tg)).rtBandwidth = (m.group tg).rtBandwidth) :
    SameRt m (m.setGroup tg f) := by
  refine ⟨rfl, (sameTree_setGroup m tg hparent).parent, ?_, rfl, rfl, rfl⟩
  funext g
  by_cases hg : g = tg
  · rw [rtBandwidthOf, hg, Mem.setGroup_group_self, hrt, rtBandwidthOf]
  · rw [rtBandwidthOf, Mem.setGroup_group_of_ne m hg, rtBandwidthOf]

lemma sameRt_tgCfsSchedulableDown {d : CfsSchedulableData G}
    (h : tgCfsSchedulableDown cfg d a m = .ok (ret, m')) : SameRt m m' := by
  rw [tgCfsSchedulableDown] at h
  dsimp only at h
  split at h
  · obtain ⟨-, rfl⟩ := Prod.mk.inj (Except.ok.inj h)
    exact sameRt_setGroup m a rfl rfl
  · split_ifs at h
    · obtain ⟨-, rfl⟩ := Prod.mk.inj (Except.ok.inj h)
      exact sameRt_setGroup m a rfl rfl
    · obtain ⟨-, rfl⟩ := Prod.mk.inj (Except.ok.inj h)
      exact .refl m
    · obtain ⟨-, rfl⟩ := Prod.mk.inj (Except.ok.inj h)
      exact sameRt_setGroup m a rfl rfl

lemma sameRt_tgSetCfsBandwidth {period quota : BitVec 64}
    (h : tgSetCfsBandwidth cfg fuel tg period quota m = .ok (ret, m')) : SameRt m m' := by
  rcases tgSetCfsBandwidth_cases h with ⟨-, rfl⟩ | ⟨-, -, -, -, m₁, hcheck, hwrite⟩
  · exact .refl m'
  · have hsame : SameRt m m₁ := walkTgTreeFrom_writes (R := SameRt) SameRt.trans
      (fun _ _ _ _ hv => sameRt_tgCfsSchedulableDown hv)
      (fun _ _ _ _ hv => (Prod.mk.inj (Except.ok.inj hv)).2 ▸ .refl _) fuel _ hcheck
    rcases hwrite with ⟨-, rfl⟩ | ⟨-, rfl⟩
    · exact hsame
    · exact hsame.trans (sameRt_setGroup m₁ tg rfl rfl)

/-! ## The steps -/

lemma rtBandwidthOf_setGroup (m : Mem G) (tg : G) (b : RtBandwidth) :
    rtBandwidthOf (m.setGroup tg fun g => { g with rtBandwidth := b })
      = Function.update (rtBandwidthOf m) tg b := by
  funext g
  by_cases hg : g = tg
  · rw [hg, Function.update_self, rtBandwidthOf, Mem.setGroup_group_self]
  · rw [Function.update_of_ne hg, rtBandwidthOf, Mem.setGroup_group_of_ne m hg, rtBandwidthOf]

/-- `__rt_schedulable` for a request, in a state where every group fits. -/
lemma RtSettled.rtSchedulable_some (h : RtSettled cfg m) (ht : Tree m kids F)
    (htg : tg ∈ m.taskGroups) (hfuel : walkFuel m ≤ fuel) (period runtime : BitVec 64) :
    ∃ ret, rtSchedulable cfg fuel (some tg) period runtime m = .ok (ret, m) ∧
      (ret = 0 ↔
        (∀ a ∈ m.taskGroups,
          RtFits cfg m (Function.update (rtBandwidthOf m) tg ⟨period, runtime⟩) a) ∧
        RootRtServed m (Function.update (rtBandwidthOf m) tg ⟨period, runtime⟩)) := by
  refine ⟨_, ht.rtSchedulable_eq (some tg) period runtime hfuel, ?_⟩
  rw [ht.rtSchedulable_eq_zero (fun x hx => Option.some.inj hx ▸ htg) fun a ha => h.sum_le ha,
    rtAsked_some]

/-- `__rt_schedulable` under other global limits. -/
lemma RtSettled.rtSchedulable_none (h : RtSettled cfg m) (ht : Tree m kids F)
    (hfuel : walkFuel m ≤ fuel) (period runtime : BitVec 32) :
    ∃ ret, rtSchedulable cfg fuel none 0 0 (withSysctl m period runtime)
        = .ok (ret, withSysctl m period runtime) ∧
      (ret = 0 ↔
        (∀ a ∈ m.taskGroups, RtFits cfg (withSysctl m period runtime) (rtBandwidthOf m) a) ∧
        RootRtServed (withSysctl m period runtime) (rtBandwidthOf m)) := by
  have ht' : Tree (withSysctl m period runtime) kids F := ht.congr ⟨rfl, rfl, rfl, fun _ => rfl⟩
  refine ⟨_, ht'.rtSchedulable_eq none 0 0 hfuel, ?_⟩
  rw [ht'.rtSchedulable_eq_zero (fun x hx => by simp at hx) fun a ha => h.sum_le ha, rtAsked_none]
  rfl

lemma RtSettled.setBandwidth (h : RtSettled cfg m) {period runtime : BitVec 64}
    (hperiod : period ≠ 0) (hfit : ∀ a ∈ m.taskGroups,
      RtFits cfg m (Function.update (rtBandwidthOf m) tg ⟨period, runtime⟩) a) :
    RtSettled cfg (m.setGroup tg fun g => { g with rtBandwidth := ⟨period, runtime⟩ }) where
  fits := fun a ha => by
    rw [rtBandwidthOf_setGroup]
    refine ⟨(hfit a ha).runtime, (hfit a ha).global, ?_⟩
    have hchildren : childrenOf
        (m.setGroup tg fun g => { g with rtBandwidth := ⟨period, runtime⟩ }) a = childrenOf m a :=
      childrenOf_congr rfl (sameTree_setGroup m tg rfl).parent
    rw [hchildren]
    exact (hfit a ha).children
  period := fun a ha => by
    rw [rtBandwidthOf_setGroup]
    by_cases hat : a = tg
    · rw [hat, Function.update_self]
      exact hperiod
    · rw [Function.update_of_ne hat]
      exact h.period a ha
  defPeriod := h.defPeriod
  globalPeriod := h.globalPeriod
  globalRuntime := h.globalRuntime

/-- A new group has no runtime. -/
lemma RtSettled.create (h : RtSettled cfg m) (ht : Tree m kids F) {parent : G}
    (htg : tg ∉ m.taskGroups) :
    RtSettled cfg (schedCreateGroup cfg m parent tg true).2 := by
  have hother : ∀ c ∈ m.taskGroups, (schedCreateGroup cfg m parent tg true).2.group c = m.group c :=
    fun c hc => Function.update_of_ne (fun heq : c = tg => htg (heq ▸ hc)) _ _
  have hself : (schedCreateGroup cfg m parent tg true).2.group tg = allocGroup cfg m parent :=
    Function.update_self _ _ _
  have hold : ∀ a, (childrenOf m a).map
      (fun c => rtRatio cfg (rtBandwidthOf (schedCreateGroup cfg m parent tg true).2 c))
        = (childrenOf m a).map fun c => rtRatio cfg (rtBandwidthOf m c) := by
    intro a
    refine List.map_congr_left fun c hc => ?_
    rw [rtBandwidthOf, hother c (List.mem_filter.mp hc).1]
    rfl
  have hchildren : ∀ a, ((childrenOf (schedCreateGroup cfg m parent tg true).2 a).map
      fun c => rtRatio cfg (rtBandwidthOf (schedCreateGroup cfg m parent tg true).2 c)).sum
        = ((childrenOf m a).map fun c => rtRatio cfg (rtBandwidthOf m c)).sum := by
    intro a
    have hfilter : m.taskGroups.filter (fun c => decide
        (((schedCreateGroup cfg m parent tg true).2.group c).parent = some a)) = childrenOf m a :=
      List.filter_congr fun c hc => by rw [hother c hc]
    have hzero : rtRatio cfg (rtBandwidthOf (schedCreateGroup cfg m parent tg true).2 tg) = 0 := by
      rw [rtBandwidthOf, hself]
      exact toRatio_zero _
    rw [← hold, childrenOf]
    change (List.map _ ((tg :: m.taskGroups).filter _)).sum = _
    rw [List.filter_cons, hfilter]
    split_ifs
    · rw [List.map_cons, List.sum_cons, hzero, Nat.zero_add]
    · rfl
  constructor
  · intro a ha
    rcases List.mem_cons.mp ha with rfl | ha
    · have hleaf : childrenOf m a = [] := (ht.free a htg ▸ ht.childrenOf_perm a).eq_nil
      have hratio : rtRatio cfg (rtBandwidthOf (schedCreateGroup cfg m parent a true).2 a) = 0 := by
        rw [rtBandwidthOf, hself]
        exact toRatio_zero _
      refine ⟨.inl ?_, ?_, ?_⟩
      · rw [rtBandwidthOf, hself]
        exact BitVec.le_def.mpr (Nat.zero_le _)
      · rw [hratio]
        exact Nat.zero_le _
      · rw [hchildren, hleaf]
        exact Nat.zero_le _
    · have hfit := h.fits a ha
      have hb : rtBandwidthOf (schedCreateGroup cfg m parent tg true).2 a = rtBandwidthOf m a := by
        rw [rtBandwidthOf, hother a ha, rtBandwidthOf]
      refine ⟨?_, ?_, ?_⟩
      · rw [hb]
        exact hfit.runtime
      · rw [hb]
        exact hfit.global
      · rw [hb, hchildren]
        exact hfit.children
  · intro a ha
    rcases List.mem_cons.mp ha with rfl | ha
    · rw [rtBandwidthOf, hself]
      exact h.defPeriod
    · rw [rtBandwidthOf, hother a ha]
      exact h.period a ha
  · exact h.defPeriod
  · exact h.globalPeriod
  · exact h.globalRuntime

lemma RtSettled.destroy (h : RtSettled cfg m) (tg : G) :
    RtSettled cfg (schedDestroyGroup m tg) where
  fits := fun a ha => by
    have hfit := h.fits a (List.mem_of_mem_erase ha)
    have hsub : (childrenOf (schedDestroyGroup m tg) a).Sublist (childrenOf m a) :=
      List.erase_sublist.filter _
    exact ⟨hfit.runtime, hfit.global,
      ((hsub.map _).sum_le_sum fun _ _ => Nat.zero_le _).trans hfit.children⟩
  period := fun a ha => h.period a (List.mem_of_mem_erase ha)
  defPeriod := h.defPeriod
  globalPeriod := h.globalPeriod
  globalRuntime := h.globalRuntime

/-! ## Runs -/

/-- The period that `sched_group_set_rt_runtime` leaves in place is not zero. -/
lemma RtSettled.tgSetRtBandwidth (h : RtSettled cfg m) (ht : Tree m kids F)
    (htg : tg ∈ m.taskGroups) (hfuel : walkFuel m ≤ fuel) {period runtime : BitVec 64}
    (hperiod : period ≠ 0)
    (hset : Groups.tgSetRtBandwidth cfg fuel tg period runtime m = .ok (ret, m')) :
    RtSettled cfg m' := by
  rcases tgSetRtBandwidth_cases hset with ⟨-, -, rfl⟩ | ⟨-, hcheck, rfl⟩
  · exact h
  · rcases h.rtSchedulable_some ht htg hfuel period runtime with ⟨ret, hret, hiff⟩
    obtain rfl : ret = 0 := (Prod.mk.inj (Except.ok.inj (hret.symm.trans hcheck))).1
    exact h.setBandwidth hperiod (hiff.mp rfl).1

lemma RtSettled.schedRtHandler (h : RtSettled cfg m) (ht : Tree m kids F)
    (hfuel : walkFuel m ≤ fuel) {period runtime : BitVec 32}
    (hset : Groups.schedRtHandler cfg fuel period runtime m = .ok (ret, m')) :
    RtSettled cfg m' := by
  rcases schedRtHandler_cases hset with ⟨-, rfl⟩ | ⟨-, hperiod, hruntime, hcheck, rfl⟩
  · exact h
  · rcases h.rtSchedulable_none ht hfuel period runtime with ⟨ret, hret, hiff⟩
    obtain rfl : ret = 0 := (Prod.mk.inj (Except.ok.inj (hret.symm.trans hcheck))).1
    have hglobal : globalRtPeriod (withSysctl m period runtime) ≠ 0 :=
      globalRtPeriod_ne_zero hperiod
    have hfits := (hiff.mp rfl).1
    exact ⟨fun a ha => ⟨(hfits a ha).runtime, (hfits a ha).global, (hfits a ha).children⟩,
      h.period, hglobal, hglobal, hruntime⟩

lemma RtSettled.step (h : RtSettled cfg m) (ht : Tree m kids F) {op : Op G} (hop : Allowed m op)
    (hstep : Groups.step cfg m op = .ok (ret, m')) : RtSettled cfg m' := by
  cases op with
  | createGroup parent tg allocOk =>
      obtain ⟨-, rfl⟩ := Prod.mk.inj (Except.ok.inj hstep)
      cases allocOk with
      | false => exact h
      | true => exact h.create ht hop.2
  | destroyGroup tg =>
      obtain ⟨-, rfl⟩ := Prod.mk.inj (Except.ok.inj hstep)
      exact h.destroy tg
  | setRtRuntime tg val => exact h.tgSetRtBandwidth ht hop le_rfl (h.period tg hop) hstep
  | setRtPeriod tg val =>
      rw [Groups.step, schedGroupSetRtPeriod] at hstep
      split_ifs at hstep with hzero
      · obtain ⟨-, rfl⟩ := Prod.mk.inj (Except.ok.inj hstep)
        exact h
      · exact h.tgSetRtBandwidth ht hop le_rfl hzero hstep
  | rtHandler period runtime => exact h.schedRtHandler ht le_rfl hstep
  | setCfsQuota tg val => exact h.congr (sameRt_tgSetCfsBandwidth hstep)
  | setCfsPeriod tg val => exact h.congr (sameRt_tgSetCfsBandwidth hstep)
  | rtTask b =>
      obtain ⟨-, rfl⟩ := Prod.mk.inj (Except.ok.inj hstep)
      exact h.congr ⟨rfl, fun _ => rfl, rfl, rfl, rfl, rfl⟩

lemma rtSettled_init (root : G) : RtSettled cfg (init cfg root) := by
  have hperiod : globalRtPeriod (init cfg root) = 1000000000 :=
    (by decide : (1000000 : BitVec 32).setWidth 64 * nsecPerUsec = 1000000000)
  have hruntime : globalRtRuntime (init cfg root) = 950000000 :=
    (by decide : (if (950000 : BitVec 32).msb then runtimeInf
      else (950000 : BitVec 32).signExtend 64 * nsecPerUsec) = 950000000)
  refine ⟨fun a ha => ⟨.inl ?_, ?_, ?_⟩, fun a _ => ?_, ?_, ?_, .inl ?_⟩
  · exact (by decide : (950000 * nsecPerUsec : BitVec 64) ≤ 1000000 * nsecPerUsec)
  · rw [hperiod, hruntime]
    exact le_rfl
  · exact Nat.zero_le _
  · exact (by decide : (1000000 * nsecPerUsec : BitVec 64) ≠ 0)
  · exact (by decide : (1000000 * nsecPerUsec : BitVec 64) ≠ 0)
  · rw [hperiod]
    decide
  · rw [hperiod, hruntime]
    decide

theorem Reachable.rtSettled {root : G} (h : Reachable cfg root m) : RtSettled cfg m := by
  induction h with
  | init => exact rtSettled_init root
  | step hreach hop hstep ih =>
      rcases hreach.tree with ⟨kids, F, ht⟩
      exact ih.step ht hop hstep

/-- **`cpu.rt_runtime_us` reads as it has been written**, where no limit is any negative number. -/
theorem schedGroupRtRuntime_written {val : BitVec 64}
    (hstep : step cfg m (.setRtRuntime tg val) = .ok (0, m'))
    (hfits : (val.setWidth cfg.wordSize).toNat * 1000 < 2 ^ 64) :
    schedGroupRtRuntime cfg m' tg = if (val.setWidth cfg.wordSize).msb then -1
      else (val.setWidth cfg.wordSize).signExtend 64 := by
  rcases tgSetRtBandwidth_cases hstep with ⟨hne, -⟩ | ⟨-, -, rfl⟩
  · exact absurd rfl hne
  rw [schedGroupRtRuntime, Mem.setGroup_group_self]
  dsimp only
  split_ifs with hmsb hinf hinf
  · rfl
  · exact absurd rfl hinf
  · exact absurd hinf (usec_back (Bool.eq_false_of_not_eq_true hmsb) hfits).1
  · exact (usec_back (Bool.eq_false_of_not_eq_true hmsb) hfits).2

/-- **`cpu.rt_period_us` reads as it has been written.** -/
theorem schedGroupRtPeriod_written {val : BitVec 64}
    (hstep : step cfg m (.setRtPeriod tg val) = .ok (0, m'))
    (hmsb : (val.setWidth cfg.wordSize).msb = false)
    (hfits : (val.setWidth cfg.wordSize).toNat * 1000 < 2 ^ 64) :
    schedGroupRtPeriod cfg m' tg = (val.setWidth cfg.wordSize).signExtend 64 := by
  rw [step, schedGroupSetRtPeriod] at hstep
  split_ifs at hstep
  · exact absurd (Prod.mk.inj (Except.ok.inj hstep)).1 (by decide)
  rcases tgSetRtBandwidth_cases hstep with ⟨hne, -⟩ | ⟨-, -, rfl⟩
  · exact absurd rfl hne
  rw [schedGroupRtPeriod, Mem.setGroup_group_self]
  exact (usec_back hmsb hfits).2

/-! ## No more than the whole -/

/-- Groups of which none is below another have together no more than one that is above them all. -/
lemma RtSettled.sum_rtRatio_le (h : RtSettled cfg m) (ht : Tree m kids F)
    (ha : a ∈ m.taskGroups) {S : Finset G}
    (hS : ∀ b ∈ S, Relation.ReflTransGen (ParentOf m) a b)
    (hbelow : ∀ b ∈ S, ∀ c ∈ S, ¬Relation.TransGen (ParentOf m) b c) :
    ∑ b ∈ S, rtRatio cfg (rtBandwidthOf m b) ≤ rtRatio cfg (rtBandwidthOf m a) := by
  have hrel : ParentOf m = Child kids := by
    funext x y
    exact propext ht.parentOf_iff
  rw [hrel] at hS hbelow
  have hnodup := ht.perm.symm.nodup ht.nodup
  rcases exists_subtree ht.shape (ht.perm.symm.subset ha) with ⟨l₁, l₂, T, hsplit, hT, hroots⟩
  have hshape : (cons a T nil).Shape kids := ⟨hroots, hT, trivial⟩
  have hpre : (cons a T nil).preorder = a :: T.preorder := by simp [preorder]
  rw [hsplit, ← hpre] at hnodup
  have hnodup' := (List.nodup_append.mp (List.nodup_append.mp hnodup).1).2.1
  have hmem : ∀ b, b ∈ (cons a T nil).preorder ↔ Relation.ReflTransGen (Child kids) a b := by
    intro b
    rw [mem_preorder_iff hshape]
    simp [roots]
  have hlive : ∀ b ∈ (cons a T nil).preorder, b ∈ m.taskGroups := by
    intro b hb
    refine ht.perm.subset ?_
    rw [hsplit, ← hpre]
    exact List.mem_append_left _ (List.mem_append_right _ hb)
  have hkids : ∀ b ∈ (cons a T nil).preorder,
      ((kids b).map fun c => rtRatio cfg (rtBandwidthOf m c)).sum
        ≤ rtRatio cfg (rtBandwidthOf m b) := by
    intro b hb
    have hperm := (ht.childrenOf_perm b).map fun c => rtRatio cfg (rtBandwidthOf m c)
    exact hperm.sum_eq ▸ (h.fits b (hlive b hb)).children
  have hsum := sum_le_of_antichain hshape hkids hbelow
  have hS' : ((cons a T nil).preorder.filter (· ∈ S)).toFinset = S := by
    ext b
    simp only [List.mem_toFinset, List.mem_filter, decide_eq_true_eq, and_iff_right_iff_imp]
    exact fun hb => (hmem b).mpr (hS b hb)
  rw [← List.sum_toFinset (fun b => rtRatio cfg (rtBandwidthOf m b)) (hnodup'.filter _),
    hS'] at hsum
  simpa [roots] using hsum

/-- **Each group keeps what is below it within its own bandwidth**, in every reachable state. -/
theorem rt_bandwidth_below {root : G} (h : Reachable cfg root m) (ha : a ∈ m.taskGroups)
    {S : Finset G} (hS : ∀ b ∈ S, Relation.ReflTransGen (ParentOf m) a b)
    (hbelow : ∀ b ∈ S, ∀ c ∈ S, ¬Relation.TransGen (ParentOf m) b c) :
    (rtBandwidthOf m a).rtPeriod ≠ 0 ∧
      ∑ b ∈ S, rtRatio cfg (rtBandwidthOf m b) ≤ rtRatio cfg (rtBandwidthOf m a) := by
  rcases h.tree with ⟨kids, F, ht⟩
  exact ⟨h.rtSettled.period a ha, h.rtSettled.sum_rtRatio_le ht ha hS hbelow⟩

omit [DecidableEq G] in
/-- Nothing is below a group without children. -/
lemma not_transGen_of_leaf {b : G} (h : ∀ c ∈ m.taskGroups, (m.group c).parent ≠ some a) :
    ¬Relation.TransGen (ParentOf m) a b := by
  intro hab
  rcases Relation.TransGen.head'_iff.mp hab with ⟨c, hc, -⟩
  exact h c hc.1 hc.2

/-- Below the group `2`, with 950 ms a second, `4` has 300 ms and `5` has 500 ms. -/
theorem rt_bandwidth_below_two :
    ∃ m, runOps smallConfig (init smallConfig 1)
        [.createGroup 1 2 true, .setRtRuntime 2 950000, .createGroup 2 4 true,
          .createGroup 2 5 true, .setRtRuntime 4 300000, .setRtRuntime 5 500000] = some m ∧
      (rtBandwidthOf m 2).rtPeriod ≠ 0 ∧
        ∑ b ∈ {4, 5}, rtRatio smallConfig (rtBandwidthOf m b)
          ≤ rtRatio smallConfig (rtBandwidthOf m 2) := by
  have hrun : ∃ m, runOps smallConfig (init smallConfig 1)
      [.createGroup 1 2 true, .setRtRuntime 2 950000, .createGroup 2 4 true,
        .createGroup 2 5 true, .setRtRuntime 4 300000, .setRtRuntime 5 500000] = some m ∧
      2 ∈ m.taskGroups ∧
      (∀ b ∈ ({4, 5} : Finset ℕ), b ∈ m.taskGroups ∧ (m.group b).parent = some 2) ∧
      ∀ b ∈ ({4, 5} : Finset ℕ), ∀ c ∈ m.taskGroups, (m.group c).parent ≠ some b :=
    Sched.exists_of_any (by decide)
  rcases hrun with ⟨m, hm, hmem, hkids, hleaf⟩
  exact ⟨m, hm, rt_bandwidth_below (Reachable.runOps _ .init hm) hmem
    (fun b hb => .single (hkids b hb)) fun b hb _ _ => not_transGen_of_leaf (hleaf b hb)⟩

end Groups
