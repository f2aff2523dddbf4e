import OsPrj.Groups.Walk

/-!
# What the operations on groups do

One lemma for each setter, and what follows for the tree: **the groups form a tree in every
reachable state** (`Reachable.tree`), so that `walk_tg_tree_from` goes from every group through the
tree of what descends from it, in preorder and postorder (`walk_tg_tree_visits`).
-/

namespace Groups

open ListHead Forest

variable {G : Type} [DecidableEq G] {cfg : Config} {m m' : Mem G} {kids : G → List G}
  {F : Forest G} {tg : G} {fuel : ℕ} {ret : ℤ}

/-! ## Microseconds -/

lemma Config.two_pow_wordSize (cfg : Config) :
    2 ^ cfg.wordSize = 2 * 2 ^ (cfg.wordSize - 1) := by
  have hge := cfg.wordSize_ge
  rw [← Nat.pow_succ']
  congr 1
  omega

lemma toNat_div_usec (x : BitVec 64) : (x / nsecPerUsec).toNat = x.toNat / 1000 :=
  BitVec.toNat_udiv

/-- A `long` that holds a count of microseconds keeps it. -/
lemma signExtend_setWidth_of_lt {x : BitVec 64} (h : x.toNat < 2 ^ (cfg.wordSize - 1)) :
    (x.setWidth cfg.wordSize).signExtend 64 = x := by
  have hpow := cfg.two_pow_wordSize
  have hnat : (x.setWidth cfg.wordSize).toNat = x.toNat := by
    rw [BitVec.toNat_setWidth, Nat.mod_eq_of_lt (by omega)]
  have hmsb : (x.setWidth cfg.wordSize).msb = false := by
    rw [BitVec.msb_eq_false_iff_two_mul_lt, hnat]
    omega
  rw [BitVec.signExtend_eq_setWidth_of_msb_false hmsb]
  refine BitVec.eq_of_toNat_eq ?_
  rw [BitVec.toNat_setWidth, hnat, Nat.mod_eq_of_lt x.isLt]

/-- A nonnegative `long` keeps its value in 64 bits. -/
lemma toNat_signExtend_usec {x : BitVec 64} (h : (x.setWidth cfg.wordSize).msb = false) :
    ((x.setWidth cfg.wordSize).signExtend 64).toNat = (x.setWidth cfg.wordSize).toNat ∧
      (x.setWidth cfg.wordSize).toNat < 2 ^ (cfg.wordSize - 1) := by
  have hpow := cfg.two_pow_wordSize
  have hlt := BitVec.msb_eq_false_iff_two_mul_lt.mp h
  have hword : 2 ^ cfg.wordSize ≤ 2 ^ 64 := Nat.pow_le_pow_right (by decide) cfg.wordSize_le
  refine ⟨?_, by omega⟩
  rw [BitVec.signExtend_eq_setWidth_of_msb_false h, BitVec.toNat_setWidth, Nat.mod_eq_of_lt]
  omega

/-- Microseconds are got back from their nanoseconds, if these fit into 64 bits. -/
lemma usec_back {x : BitVec 64} (hmsb : (x.setWidth cfg.wordSize).msb = false)
    (hfits : (x.setWidth cfg.wordSize).toNat * 1000 < 2 ^ 64) :
    (x.setWidth cfg.wordSize).signExtend 64 * nsecPerUsec ≠ Sched.runtimeInf ∧
      (((x.setWidth cfg.wordSize).signExtend 64 * nsecPerUsec / nsecPerUsec).setWidth
        cfg.wordSize).signExtend 64 = (x.setWidth cfg.wordSize).signExtend 64 := by
  rcases toNat_signExtend_usec hmsb with ⟨hnat, hlt⟩
  generalize (x.setWidth cfg.wordSize).signExtend 64 = u at hnat ⊢
  rw [← hnat] at hlt hfits
  have hmul : (u * nsecPerUsec).toNat = u.toNat * 1000 := by
    rw [BitVec.toNat_mul]
    exact Nat.mod_eq_of_lt hfits
  have hdiv : u * nsecPerUsec / nsecPerUsec = u := by
    refine BitVec.eq_of_toNat_eq ?_
    rw [toNat_div_usec, hmul]
    omega
  refine ⟨fun heq => ?_, ?_⟩
  · rw [heq, Sched.runtimeInf, BitVec.toNat_allOnes] at hmul
    omega
  · rw [hdiv]
    exact signExtend_setWidth_of_lt hlt

/-! ## The setters -/

/-- A real-time bandwidth is written if the check succeeds, and else nothing is. -/
lemma tgSetRtBandwidth_cases {period runtime : BitVec 64}
    (h : tgSetRtBandwidth cfg fuel tg period runtime m = .ok (ret, m')) :
    (ret ≠ 0 ∧ rtSchedulable cfg fuel (some tg) period runtime m = .ok (ret, m) ∧ m' = m) ∨
    (ret = 0 ∧ rtSchedulable cfg fuel (some tg) period runtime m = .ok (0, m) ∧
      m' = m.setGroup tg fun g => { g with rtBandwidth := ⟨period, runtime⟩ }) := by
  rcases exists_of_bind_ok h with ⟨⟨err, m₁⟩, hcheck, hrest⟩
  obtain rfl : m₁ = m := rtSchedulable_mem hcheck
  dsimp only at hrest
  split_ifs at hrest with herr
  · obtain ⟨rfl, rfl⟩ := Prod.mk.inj (Except.ok.inj hrest)
    exact .inl ⟨herr, hcheck, rfl⟩
  · obtain ⟨rfl, rfl⟩ := Prod.mk.inj (Except.ok.inj hrest)
    obtain rfl : err = 0 := not_not.mp herr
    exact .inr ⟨rfl, hcheck, rfl⟩

/-- The memory in which `sched_rt_handler` makes its checks. -/
def withSysctl (m : Mem G) (period runtime : BitVec 32) : Mem G :=
  { m with sysctlSchedRtPeriod := period, sysctlSchedRtRuntime := runtime }

/-- The global limits are written if the checks succeed, and else put back. -/
lemma schedRtHandler_cases {period runtime : BitVec 32}
    (h : schedRtHandler cfg fuel period runtime m = .ok (ret, m')) :
    (ret ≠ 0 ∧ m' = m) ∨
    (ret = 0 ∧ period ≠ 0 ∧
      (globalRtRuntime (withSysctl m period runtime)
          ≤ globalRtPeriod (withSysctl m period runtime) ∨
        globalRtRuntime (withSysctl m period runtime) = Sched.runtimeInf) ∧
      rtSchedulable cfg fuel none 0 0 (withSysctl m period runtime)
        = .ok (0, withSysctl m period runtime) ∧
      m' = { withSysctl m period runtime with defRtBandwidth :=
        ⟨globalRtPeriod (withSysctl m period runtime),
          globalRtRuntime (withSysctl m period runtime)⟩ }) := by
  rcases exists_of_bind_ok h with ⟨⟨err, m₁⟩, hcheck, hrest⟩
  change schedRtGlobalConstraints cfg fuel (withSysctl m period runtime) = _ at hcheck
  rw [schedRtGlobalConstraints] at hcheck
  have hfail : err ≠ 0 → m₁ = withSysctl m period runtime → ret ≠ 0 ∧ m' = m := by
    rintro herr rfl
    dsimp only at hrest
    rw [if_pos herr] at hrest
    obtain ⟨rfl, rfl⟩ := Prod.mk.inj (Except.ok.inj hrest)
    exact ⟨herr, rfl⟩
  split_ifs at hcheck with hzero hsane
  · obtain ⟨rfl, rfl⟩ := Prod.mk.inj (Except.ok.inj hcheck)
    exact .inl (hfail (by decide) rfl)
  · obtain ⟨rfl, rfl⟩ := Prod.mk.inj (Except.ok.inj hcheck)
    exact .inl (hfail (by decide) rfl)
  · have hm := rtSchedulable_mem hcheck
    by_cases herr : err = 0
    · subst herr hm
      obtain ⟨rfl, rfl⟩ := Prod.mk.inj (Except.ok.inj hrest)
      refine .inr ⟨rfl, hzero, ?_, hcheck, rfl⟩
      rw [not_and_or, BitVec.not_lt, not_not] at hsane
      exact hsane
    · exact .inl (hfail herr hm)

/-- A quota of the fair class is written if the checks succeed; a check that fails may have written
hierarchical quotas. -/
lemma tgSetCfsBandwidth_cases {period quota : BitVec 64}
    (h : tgSetCfsBandwidth cfg fuel tg period quota m = .ok (ret, m')) :
    (ret ≠ 0 ∧ m' = m) ∨
    (tg ≠ m.rootTaskGroup ∧ minCfsQuotaPeriod ≤ quota ∧ minCfsQuotaPeriod ≤ period ∧
      period ≤ maxCfsQuotaPeriod ∧
      ∃ m₁, cfsSchedulable cfg fuel tg period quota m = .ok (ret, m₁) ∧
        (ret ≠ 0 ∧ m' = m₁ ∨ ret = 0 ∧ m' = m₁.setGroup tg fun g => { g with
          cfsBandwidth := { g.cfsBandwidth with period := period, quota := quota } })) := by
  rw [tgSetCfsBandwidth] at h
  split_ifs at h with hroot hmin hmax
  · obtain ⟨rfl, rfl⟩ := Prod.mk.inj (Except.ok.inj h)
    exact .inl ⟨by decide, rfl⟩
  · obtain ⟨rfl, rfl⟩ := Prod.mk.inj (Except.ok.inj h)
    exact .inl ⟨by decide, rfl⟩
  · obtain ⟨rfl, rfl⟩ := Prod.mk.inj (Except.ok.inj h)
    exact .inl ⟨by decide, rfl⟩
  · rw [not_or, BitVec.not_lt, BitVec.not_lt] at hmin
    rw [BitVec.not_lt] at hmax
    rcases exists_of_bind_ok h with ⟨⟨err, m₁⟩, hcheck, hrest⟩
    refine .inr ⟨hroot, hmin.1, hmin.2, hmax, m₁, ?_⟩
    dsimp only at hrest
    split_ifs at hrest with herr
    · obtain ⟨rfl, rfl⟩ := Prod.mk.inj (Except.ok.inj hrest)
      exact ⟨hcheck, .inl ⟨herr, rfl⟩⟩
    · obtain ⟨rfl, rfl⟩ := Prod.mk.inj (Except.ok.inj hrest)
      exact ⟨hcheck, .inr ⟨not_not.mp herr, rfl⟩⟩

lemma sameTree_cfsSchedulable {period quota : BitVec 64}
    (h : cfsSchedulable cfg fuel tg period quota m = .ok (ret, m')) : SameTree m m' :=
  walkTgTreeFrom_writes (R := SameTree) SameTree.trans (keepsTree_tgCfsSchedulableDown _)
    keepsTree_tgNop fuel _ h

lemma sameTree_tgSetRtBandwidth {period runtime : BitVec 64}
    (h : tgSetRtBandwidth cfg fuel tg period runtime m = .ok (ret, m')) : SameTree m m' := by
  rcases tgSetRtBandwidth_cases h with ⟨-, -, rfl⟩ | ⟨-, -, rfl⟩
  · exact .refl m'
  · exact sameTree_setGroup m tg rfl

lemma sameTree_tgSetCfsBandwidth {period quota : BitVec 64}
    (h : tgSetCfsBandwidth cfg fuel tg period quota m = .ok (ret, m')) : SameTree m m' := by
  rcases tgSetCfsBandwidth_cases h with ⟨-, rfl⟩ | ⟨-, -, -, -, m₁, hcheck, hwrite⟩
  · exact .refl m'
  · have hsame := sameTree_cfsSchedulable hcheck
    rcases hwrite with ⟨-, rfl⟩ | ⟨-, rfl⟩
    · exact hsame
    · exact hsame.trans (sameTree_setGroup m₁ tg rfl)

/-! ## The tree -/

/-- **Every operation leaves a tree.** -/
theorem Tree.step (h : Tree m kids F) {op : Op G} (hop : Allowed m op)
    (hstep : Groups.step cfg m op = .ok (ret, m')) : ∃ kids' F', Tree m' kids' F' := by
  cases op with
  | createGroup parent tg allocOk =>
      obtain ⟨-, rfl⟩ := Prod.mk.inj (Except.ok.inj hstep)
      cases allocOk with
      | false => exact ⟨kids, F, h⟩
      | true =>
          have hcreate : ∃ F', Tree (schedCreateGroup cfg m parent tg true).2 _ F' :=
            h.create hop.1 hop.2
          exact ⟨_, hcreate⟩
  | destroyGroup tg =>
      obtain ⟨-, rfl⟩ := Prod.mk.inj (Except.ok.inj hstep)
      rcases h.destroy hop.1 hop.2.1 hop.2.2 with ⟨p, F', -, -, h'⟩
      exact ⟨_, F', h'⟩
  | setRtRuntime tg val => exact ⟨kids, F, h.congr (sameTree_tgSetRtBandwidth hstep)⟩
  | setRtPeriod tg val =>
      rw [Groups.step, schedGroupSetRtPeriod] at hstep
      split_ifs at hstep
      · obtain ⟨-, rfl⟩ := Prod.mk.inj (Except.ok.inj hstep)
        exact ⟨kids, F, h⟩
      · exact ⟨kids, F, h.congr (sameTree_tgSetRtBandwidth hstep)⟩
  | rtHandler period runtime =>
      rcases schedRtHandler_cases hstep with ⟨-, rfl⟩ | ⟨-, -, -, -, rfl⟩
      · exact ⟨kids, F, h⟩
      · exact ⟨kids, F, h.congr ⟨rfl, rfl, rfl, fun _ => rfl⟩⟩
  | setCfsQuota tg val => exact ⟨kids, F, h.congr (sameTree_tgSetCfsBandwidth hstep)⟩
  | setCfsPeriod tg val => exact ⟨kids, F, h.congr (sameTree_tgSetCfsBandwidth hstep)⟩
  | rtTask b =>
      obtain ⟨-, rfl⟩ := Prod.mk.inj (Except.ok.inj hstep)
      exact ⟨kids, F, h.congr ⟨rfl, rfl, rfl, fun _ => rfl⟩⟩

theorem Reachable.tree {root : G} (h : Reachable cfg root m) : ∃ kids F, Tree m kids F := by
  induction h with
  | init => exact ⟨_, _, tree_init root⟩
  | step _ hop hstep ih =>
      rcases ih with ⟨kids, F, ht⟩
      exact ht.step hop hstep

/-- `b` is a group whose parent is `a`. -/
def ParentOf (m : Mem G) (a b : G) : Prop := b ∈ m.taskGroups ∧ (m.group b).parent = some a

lemma Tree.parentOf_iff (h : Tree m kids F) {a b : G} : ParentOf m a b ↔ Child kids a b :=
  ⟨fun hb => h.mem_kids_of_parent hb.1 hb.2, fun hb => ⟨h.kid_mem hb, h.parent a b hb⟩⟩

lemma Tree.nodup_kids (h : Tree m kids F) (a : G) : (kids a).Nodup := by
  rcases h.links with ⟨L, hL, -⟩
  exact hL.nodup a

lemma Tree.length_kids_le (h : Tree m kids F) (a : G) : (kids a).length ≤ m.taskGroups.length :=
  ((h.nodup_kids a).subperm fun _ hc => h.kid_mem hc).length_le

/-- The groups that `list_for_each_entry_rcu(child, &tg->children, siblings)` goes through, in
order. -/
def childList (m : Mem G) (tg : G) : List G :=
  (forEachFrom m.links tg (fun child l => l ++ [child]) (walkFuel m) (m.links.next (.head tg))
    []).getD []

lemma Tree.childList_eq (h : Tree m kids F) {a : G} (ha : a ∈ m.taskGroups) :
    childList m a = kids a := by
  have hlen := h.length_kids_le a
  have hfuel : (kids a).length < walkFuel m := by
    rw [walkFuel]
    omega
  rw [childList, forEachFrom_eq (kids a) [] (h.visits ha) hfuel]
  simp [← List.flatMap_def]

/-- What `walk_tg_tree_from` does from `start`: `T` is the tree of the groups that descend from it,
with the children of each in the order of its list.  Each group is entered once, in the preorder of
`T`, and left once, in its postorder, until a visitor fails. -/
structure WalkOf (m : Mem G) (start : G) (fuel : ℕ) (T : Forest G) : Prop where
  roots : T.roots = [start]
  shape : T.Shape (childList m)
  children : ∀ a ∈ T.preorder, ∀ b, b ∈ childList m a ↔ ParentOf m a b
  nodup : T.preorder.Nodup
  mem_iff : ∀ g, g ∈ T.preorder ↔ Relation.ReflTransGen (ParentOf m) start g
  entered : T.events.filterMap Event.entered = T.preorder
  left : T.events.filterMap Event.left = T.postorder
  walk : ∀ down up : Visitor G, KeepsTree down → KeepsTree up →
    walkTgTreeFrom start down up fuel (.down start) m = visitAll down up T.events m

/-- **What `walk_tg_tree_from` visits**, in every reachable state and from every group. -/
theorem walk_tg_tree_visits {root start : G} (h : Reachable cfg root m)
    (hstart : start ∈ m.taskGroups) (hfuel : walkFuel m ≤ fuel) :
    ∃ T : Forest G, WalkOf m start fuel T := by
  rcases h.tree with ⟨kids, F, ht⟩
  have hnodup := ht.perm.symm.nodup ht.nodup
  rcases exists_subtree ht.shape (ht.perm.symm.subset hstart) with
    ⟨l₁, l₂, S, hsplit, hS, hroots⟩
  have hpre : (cons start S nil).preorder = start :: S.preorder := by simp [preorder]
  rw [hsplit, ← hpre] at hnodup
  have hnodup' := (List.nodup_append.mp (List.nodup_append.mp hnodup).1).2.1
  have hsize : (cons start S nil).size ≤ m.taskGroups.length := by
    have hlen := ht.perm.length_eq
    rw [hsplit, ← hpre, List.length_append, List.length_append, length_preorder] at hlen
    omega
  have hshape : (cons start S nil).Shape kids := ⟨hroots, hS, trivial⟩
  have hlisted : ∀ a ∈ (cons start S nil).preorder, a ∈ m.taskGroups := fun a ha =>
    ht.perm.subset (hsplit ▸ List.mem_append_left _ (List.mem_append_right _ (hpre ▸ ha)))
  have hchildren : ∀ a ∈ (cons start S nil).preorder, childList m a = kids a := fun a ha =>
    ht.childList_eq (hlisted a ha)
  refine ⟨cons start S nil, rfl, hshape.congr hchildren, fun a ha b => ?_, hnodup', fun g => ?_,
    filterMap_entered_events _, filterMap_left_events _, fun down up hdown hup => ?_⟩
  · rw [hchildren a ha]
    exact ht.parentOf_iff.symm
  · have hrel : ParentOf m = Child kids := by
      funext a b
      exact propext ht.parentOf_iff
    rw [hrel, mem_preorder_iff hshape]
    simp [roots]
  · rw [walkFuel] at hfuel
    exact ht.walkTgTreeFrom_eq hdown hup hstart hroots hS hnodup' (by omega)

/-! ## Runs on fixed operations -/

/-- Perform operations one after the other, as long as they are allowed. -/
def runOps (cfg : Config) (m : Mem G) : List (Op G) → Option (Mem G)
  | [] => some m
  | op :: ops =>
      if Allowed m op then
        match step cfg m op with
        | .ok r => runOps cfg r.2 ops
        | .error _ => none
      else none

lemma Reachable.runOps {root : G} :
    ∀ (ops : List (Op G)) {m m' : Mem G}, Reachable cfg root m → Groups.runOps cfg m ops = some m' →
      Reachable cfg root m'
  | [], m, m', h, hrun => Option.some.inj hrun ▸ h
  | op :: ops, m, m', h, hrun => by
      rw [Groups.runOps] at hrun
      split_ifs at hrun with hop
      cases hstep : Groups.step cfg m op with
      | error e =>
          rw [hstep] at hrun
          exact absurd hrun (by simp)
      | ok r =>
          rw [hstep] at hrun
          exact (h.step hop hstep).runOps ops hrun

/-- A 32-bit machine; `init_cfs_bandwidth` sets a period of 100 ms and no quota. -/
def smallConfig : Config where
  wordSize := 32
  wordSize_ge := le_rfl
  wordSize_le := by decide
  initCfsBandwidth := ⟨100000000, Sched.runtimeInf, 0⟩

/-- The walk from the group `2`, below which `4` and `5` stand. -/
theorem walk_tg_tree_visits_two :
    ∃ m, runOps smallConfig (init smallConfig 1)
        [.createGroup 1 2 true, .createGroup 1 3 true, .createGroup 2 4 true,
          .createGroup 4 5 true, .createGroup 3 6 true, .destroyGroup 6] = some m ∧
      ∃ T, WalkOf m 2 (walkFuel m) T := by
  have hrun : ∃ m, runOps smallConfig (init smallConfig 1)
      [.createGroup 1 2 true, .createGroup 1 3 true, .createGroup 2 4 true,
        .createGroup 4 5 true, .createGroup 3 6 true, .destroyGroup 6] = some m ∧
      2 ∈ m.taskGroups := Sched.exists_of_any (by decide)
  rcases hrun with ⟨m, hm, hmem⟩
  exact ⟨m, hm, walk_tg_tree_visits (Reachable.runOps _ .init hm) hmem le_rfl⟩

end Groups
