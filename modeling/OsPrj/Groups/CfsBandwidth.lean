import OsPrj.Groups.RtBandwidth

/-!
# The admission of fair class quotas

* `forgetHierarchal` — the state without the hierarchical quotas, of which the check writes each
  before it reads it.
* `Tree.cfsSchedulable_eq` — `__cfs_schedulable` succeeds if no group has a ratio above the nearest
  limit over it, **whatever hierarchical quotas earlier calls left behind**.
* `CfsSettled` — no group has a ratio above that of any group over it, **in every reachable state**
  (`Reachable.cfsSettled`).
-/

namespace Groups

open ListHead Forest
open Sched (runtimeInf einval)

variable {G : Type} [DecidableEq G] {cfg : Config} {m m' : Mem G} {kids : G → List G}
  {F : Forest G} {a p tg : G} {fuel : ℕ} {ret : ℤ}

/-! ## Limits -/

/-- The bandwidth that each group has. -/
def cfsBandwidthOf (m : Mem G) (a : G) : CfsBandwidth := (m.group a).cfsBandwidth

/-- The limit that a bandwidth stands for, in units of `2^-20` of a processor. -/
def cfsLimit (cfg : Config) (b : CfsBandwidth) : Option ℕ :=
  if b.quota = runtimeInf then none
  else some (toRatio cfg (b.period / nsecPerUsec) (b.quota / nsecPerUsec))

/-- The periods and quotas that `tg_set_cfs_bandwidth` lets through, and that a `long` holds in
microseconds. -/
structure CfsBandwidth.InRange (cfg : Config) (b : CfsBandwidth) : Prop where
  min_le : minCfsQuotaPeriod ≤ b.period
  le_max : b.period ≤ maxCfsQuotaPeriod
  quota : b.quota = runtimeInf ∨ (b.quota / nsecPerUsec).toNat < 2 ^ (cfg.wordSize - 1)

/-- How `hierarchal_quota` stores a limit. -/
def encodeLimit : Option ℕ → BitVec 64
  | none => runtimeInf
  | some n => BitVec.ofNat 64 n

lemma CfsBandwidth.InRange.period_us {b : CfsBandwidth} (h : b.InRange cfg) :
    1000 ≤ (b.period / nsecPerUsec).toNat ∧ (b.period / nsecPerUsec).toNat ≤ 1000000 := by
  have hmin : 1000000 ≤ b.period.toNat := BitVec.le_def.mp h.min_le
  have hmax : b.period.toNat ≤ 1000000000 := BitVec.le_def.mp h.le_max
  rw [toNat_div_usec]
  omega

lemma cfsLimit_lt {b : CfsBandwidth} (h : b.InRange cfg) : ∀ n ∈ cfsLimit cfg b, n < 2 ^ 63 := by
  intro n hn
  rw [cfsLimit] at hn
  split_ifs at hn with hinf
  · simp at hn
  obtain rfl := Option.some.inj hn
  have hle := cfg.wordSize_le
  rw [toRatio, if_neg fun heq => ?_]
  · refine (Nat.mod_le _ _).trans_lt ?_
    rw [BitVec.toNat_udiv]
    have hperiod := h.period_us.1
    have hlt := ((b.quota / nsecPerUsec) <<< 20).isLt
    exact (Nat.div_le_div_left (by omega : 2 ≤ _) (by omega)).trans_lt (by omega)
  · have hdiv := congrArg BitVec.toNat heq
    have hlt := b.quota.isLt
    rw [toNat_div_usec, runtimeInf, BitVec.toNat_allOnes] at hdiv
    omega

omit [DecidableEq G] in
lemma CfsBandwidth.InRange.getCfsPeriod (h : (cfsBandwidthOf m a).InRange cfg) :
    tgGetCfsPeriod cfg m a = (cfsBandwidthOf m a).period / nsecPerUsec := by
  have hpow : 2 ^ 31 ≤ 2 ^ (cfg.wordSize - 1) := by
    have hge := cfg.wordSize_ge
    exact Nat.pow_le_pow_right (by decide) (by omega)
  exact signExtend_setWidth_of_lt (h.period_us.2.trans_lt (by omega))

omit [DecidableEq G] in
lemma CfsBandwidth.InRange.getCfsQuota (h : (cfsBandwidthOf m a).InRange cfg) :
    tgGetCfsQuota cfg m a = if (cfsBandwidthOf m a).quota = runtimeInf then -1
      else (cfsBandwidthOf m a).quota / nsecPerUsec := by
  rw [tgGetCfsQuota]
  change (if (cfsBandwidthOf m a).quota = runtimeInf then -1 else _) = _
  split_ifs with hinf
  · rfl
  · exact signExtend_setWidth_of_lt (h.quota.resolve_left hinf)

/-- The bandwidths that `__cfs_schedulable` checks. -/
def cfsAsked (m : Mem G) (tg : G) (period quota : BitVec 64) : G → CfsBandwidth :=
  Function.update (cfsBandwidthOf m) tg ⟨period, quota, (cfsBandwidthOf m tg).hierarchalQuota⟩

/-- The argument of the walk in `__cfs_schedulable`. -/
def cfsData (tg : G) (period quota : BitVec 64) : CfsSchedulableData G :=
  if quota ≠ runtimeInf then ⟨tg, period / nsecPerUsec, quota / nsecPerUsec⟩
  else ⟨tg, period, quota⟩

lemma div_usec_ne_inf (x : BitVec 64) : x / nsecPerUsec ≠ runtimeInf := by
  intro heq
  have hdiv := congrArg BitVec.toNat heq
  have hlt := x.isLt
  rw [toNat_div_usec, runtimeInf, BitVec.toNat_allOnes] at hdiv
  omega

/-- The end of `normalize_cfs_quota`, for a group with the bandwidth `b`. -/
lemma encodeLimit_cfsLimit {b : CfsBandwidth} {period quota : BitVec 64}
    (hquota : quota = if b.quota = runtimeInf then -1 else b.quota / nsecPerUsec)
    (hperiod : b.quota ≠ runtimeInf → period = b.period / nsecPerUsec) :
    (if quota = runtimeInf ∨ quota = -1 then runtimeInf
      else BitVec.ofNat 64 (toRatio cfg period quota)) = encodeLimit (cfsLimit cfg b) := by
  rw [cfsLimit]
  by_cases hinf : b.quota = runtimeInf
  · rw [if_pos hinf] at hquota ⊢
    rw [if_pos (.inr hquota)]
    rfl
  · rw [if_neg hinf] at hquota ⊢
    have hne : ¬(quota = runtimeInf ∨ quota = -1) := fun hor =>
      div_usec_ne_inf b.quota (hquota.symm.trans (hor.elim id id))
    rw [if_neg hne, hperiod hinf, hquota]
    rfl

/-- `normalize_cfs_quota` is the limit of the bandwidth that is asked for. -/
lemma normalizeCfsQuota_eq {period quota : BitVec 64}
    (h : (cfsAsked m tg period quota a).InRange cfg) :
    normalizeCfsQuota cfg (cfsData tg period quota) m a
      = encodeLimit (cfsLimit cfg (cfsAsked m tg period quota a)) := by
  have htg : (cfsData tg period quota).tg = tg := by
    rw [cfsData]
    split_ifs <;> rfl
  rw [normalizeCfsQuota, htg]
  by_cases ha : a = tg
  · rw [if_pos ha, if_pos ha, cfsAsked, ha, Function.update_self, cfsData]
    refine encodeLimit_cfsLimit ?_ fun hne => ?_
    · by_cases hinf : quota = runtimeInf
      · rw [if_neg (not_not.mpr hinf), if_pos hinf]
        exact hinf
      · rw [if_pos hinf, if_neg hinf]
    · rw [if_pos hne]
  · rw [cfsAsked, Function.update_of_ne ha] at h
    rw [if_neg ha, if_neg ha, cfsAsked, Function.update_of_ne ha]
    exact encodeLimit_cfsLimit h.getCfsQuota fun _ => h.getCfsPeriod

/-! ## The walk -/

/-- A group without its hierarchical quota. -/
def TaskGroup.forgetHierarchal (g : TaskGroup G) : TaskGroup G :=
  ⟨g.parent, g.rtBandwidth, ⟨g.cfsBandwidth.period, g.cfsBandwidth.quota, 0⟩⟩

/-- The state without the hierarchical quotas. -/
def forgetHierarchal (m : Mem G) : Mem G :=
  { m with group := fun g => (m.group g).forgetHierarchal }

/-- The states differ in hierarchical quotas only. -/
def SameQuotas (m m' : Mem G) : Prop := forgetHierarchal m' = forgetHierarchal m

lemma sameQuotas_setHierarchalQuota (m : Mem G) (a : G) (q : BitVec 64) :
    SameQuotas m (setHierarchalQuota m a q) := by
  refine congrArg (fun f => { m with group := f }) (funext fun g => ?_)
  by_cases hg : g = a
  · rw [hg, setHierarchalQuota, Mem.setGroup_group_self]
    rfl
  · rw [setHierarchalQuota, Mem.setGroup_group_of_ne m hg]

omit [DecidableEq G] in
lemma SameQuotas.group (h : SameQuotas m m') (g : G) :
    (m'.group g).forgetHierarchal = (m.group g).forgetHierarchal :=
  congrFun (congrArg Mem.group h) g

omit [DecidableEq G] in
/-- What is read of both states without the hierarchical quotas is the same. -/
lemma SameQuotas.read {β : Type} (h : SameQuotas m m') (f : Mem G → β) :
    f (forgetHierarchal m') = f (forgetHierarchal m) := congrArg f h

omit [DecidableEq G] in
lemma SameQuotas.parent (h : SameQuotas m m') (g : G) : (m'.group g).parent = (m.group g).parent :=
  h.read fun m => (m.group g).parent

omit [DecidableEq G] in
lemma SameQuotas.sameTree (h : SameQuotas m m') : SameTree m m' where
  links := h.read Mem.links
  rootTaskGroup := h.read Mem.rootTaskGroup
  taskGroups := h.read Mem.taskGroups
  parent := h.parent

lemma SameQuotas.normalizeCfsQuota (h : SameQuotas m m') (d : CfsSchedulableData G) (g : G) :
    normalizeCfsQuota cfg d m' g = normalizeCfsQuota cfg d m g :=
  h.read fun m => Groups.normalizeCfsQuota cfg d m g

lemma encodeLimit_ne_inf {n : ℕ} (h : n < 2 ^ 63) : encodeLimit (some n) ≠ runtimeInf := by
  intro heq
  have hnat := congrArg BitVec.toNat heq
  rw [encodeLimit, BitVec.toNat_ofNat, runtimeInf, BitVec.toNat_allOnes] at hnat
  omega

lemma slt_encodeLimit {n k : ℕ} (hn : n < 2 ^ 63) (hk : k < 2 ^ 63) :
    (encodeLimit (some k)).slt (encodeLimit (some n)) = true ↔ k < n := by
  have hnat : ∀ i : ℕ, i < 2 ^ 63 → (encodeLimit (some i)).toInt = i := by
    intro i hi
    have htoNat : (encodeLimit (some i)).toNat = i := by
      rw [encodeLimit, BitVec.toNat_ofNat, Nat.mod_eq_of_lt (by omega)]
    rw [BitVec.toInt_eq_toNat_of_lt (by omega), htoNat]
  rw [BitVec.slt_iff_toInt_lt, hnat k hk, hnat n hn, Int.ofNat_lt]

/-- `tg_cfs_schedulable_down` for a group that is not the root, whose limit is `x` and the nearest
limit over it `q`. -/
lemma tgCfsSchedulableDown_eq {d : CfsSchedulableData G} {q x : Option ℕ}
    (hparent : (m.group a).parent = some p)
    (hq : (cfsBandwidthOf m p).hierarchalQuota = encodeLimit q)
    (hx : normalizeCfsQuota cfg d m a = encodeLimit x)
    (hqlt : ∀ n ∈ q, n < 2 ^ 63) (hxlt : ∀ n ∈ x, n < 2 ^ 63) :
    tgCfsSchedulableDown cfg d a m = if ∀ n ∈ x, ∀ k ∈ q, n ≤ k
      then .ok (0, setHierarchalQuota m a (encodeLimit (x.or q))) else .ok (einval, m) := by
  rw [tgCfsSchedulableDown, hparent]
  dsimp only
  change (m.group p).cfsBandwidth.hierarchalQuota = _ at hq
  rw [hx, hq]
  cases x with
  | none =>
      rw [if_pos (show encodeLimit none = runtimeInf from rfl), if_pos (by simp)]
      rfl
  | some n =>
      rw [if_neg (encodeLimit_ne_inf (hxlt n rfl))]
      cases q with
      | none =>
          rw [if_neg (fun h => h.1 rfl), if_pos (by simp)]
          rfl
      | some k =>
          have hslt := slt_encodeLimit (hxlt n rfl) (hqlt k rfl)
          by_cases hle : n ≤ k
          · rw [if_neg (fun h => absurd (hslt.mp h.2) (not_lt.mpr hle)),
              if_pos (by simpa using hle)]
            rfl
          · rw [if_pos ⟨encodeLimit_ne_inf (hqlt k rfl), hslt.mpr (not_le.mp hle)⟩,
              if_neg (by simpa using hle)]
            rfl

/-- `F` is what is below `p`, and `q` is the limit that the walk has found for `p`; `l` are the
limits that the groups below ask for. -/
structure CfsBelow (cfg : Config) (d : CfsSchedulableData G) (l : G → Option ℕ)
    (kids : G → List G) (F : Forest G) (p : G) (q : Option ℕ) (m : Mem G) : Prop where
  roots : ∀ a ∈ F.roots, (m.group a).parent = some p
  shape : F.Shape kids
  parent : ∀ a c, c ∈ kids a → (m.group c).parent = some a
  nodup : (p :: F.preorder).Nodup
  hierarchal : (cfsBandwidthOf m p).hierarchalQuota = encodeLimit q
  lt_over : ∀ n ∈ q, n < 2 ^ 63
  normalize : ∀ a ∈ F.preorder, normalizeCfsQuota cfg d m a = encodeLimit (l a)
  lt : ∀ a ∈ F.preorder, ∀ n ∈ l a, n < 2 ^ 63

section Below

variable {d : CfsSchedulableData G} {l : G → Option ℕ} {c r : Forest G} {q : Option ℕ}

lemma CfsBelow.nodup_cons (h : CfsBelow cfg d l kids (cons a c r) p q m) :
    p ≠ a ∧ (a :: c.preorder).Nodup ∧ (p :: r.preorder).Nodup ∧ p ∉ c.preorder := by
  have hnodup : (p :: a :: (c.preorder ++ r.preorder)).Nodup := h.nodup
  rcases List.nodup_cons.mp hnodup with ⟨hp, hrest⟩
  rcases List.nodup_cons.mp hrest with ⟨ha, hcr⟩
  rcases List.nodup_append.mp hcr with ⟨hc, hr, -⟩
  exact ⟨fun heq => hp (heq ▸ List.mem_cons_self),
    List.nodup_cons.mpr ⟨fun hm => ha (List.mem_append_left _ hm), hc⟩,
    List.nodup_cons.mpr
      ⟨fun hm => hp (List.mem_cons_of_mem a (List.mem_append_right _ hm)), hr⟩,
    fun hm => hp (List.mem_cons_of_mem a (List.mem_append_left _ hm))⟩

/-- Below `a`, once its own limit is written. -/
lemma CfsBelow.children (h : CfsBelow cfg d l kids (cons a c r) p q m) :
    CfsBelow cfg d l kids c a ((l a).or q)
      (setHierarchalQuota m a (encodeLimit ((l a).or q))) := by
  have hsame := sameQuotas_setHierarchalQuota m a (encodeLimit ((l a).or q))
  rcases h.shape with ⟨hka, hc, -⟩
  refine ⟨fun b hb => ?_, hc, fun b e he => ?_, h.nodup_cons.2.1, ?_, fun n hn => ?_,
    fun b hb => ?_, fun b hb => ?_⟩
  · rw [hsame.parent]
    exact h.parent a b (hka ▸ hb)
  · rw [hsame.parent]
    exact h.parent b e he
  · rw [cfsBandwidthOf, setHierarchalQuota, Mem.setGroup_group_self]
  · cases hx : l a with
    | none =>
        rw [hx, Option.none_or] at hn
        exact h.lt_over n hn
    | some x =>
        rw [hx, Option.some_or] at hn
        exact h.lt a List.mem_cons_self n (hx.trans hn)
  · rw [hsame.normalizeCfsQuota]
    exact h.normalize b (List.mem_cons_of_mem a (List.mem_append_left _ hb))
  · exact h.lt b (List.mem_cons_of_mem a (List.mem_append_left _ hb))

/-- After `a` and what is below it. -/
lemma CfsBelow.rest (h : CfsBelow cfg d l kids (cons a c r) p q m) (hs : SameQuotas m m')
    (hp : m'.group p = m.group p) : CfsBelow cfg d l kids r p q m' := by
  refine ⟨fun b hb => ?_, h.shape.2.2, fun b e he => ?_, h.nodup_cons.2.2.1, ?_, h.lt_over,
    fun b hb => ?_, fun b hb => ?_⟩
  · rw [hs.parent]
    exact h.roots b (List.mem_cons_of_mem a hb)
  · rw [hs.parent]
    exact h.parent b e he
  · rw [cfsBandwidthOf, hp]
    exact h.hierarchal
  · rw [hs.normalizeCfsQuota]
    exact h.normalize b (List.mem_cons_of_mem a (List.mem_append_right _ hb))
  · exact h.lt b (List.mem_cons_of_mem a (List.mem_append_right _ hb))

/-- The walk below `p` goes on if no group there has a limit above the nearest one over it, and else
it ends with `-EINVAL`. -/
lemma CfsBelow.visitAll {F : Forest G} (rest : List (Event G))
    (h : CfsBelow cfg d l kids F p q m) :
    ∃ m', SameQuotas m m' ∧ (∀ g, g ∉ F.preorder → m'.group g = m.group g) ∧
      (F.Limited l q → Groups.visitAll (tgCfsSchedulableDown cfg d) tgNop (F.events ++ rest) m
        = Groups.visitAll (tgCfsSchedulableDown cfg d) tgNop rest m') ∧
      (¬F.Limited l q → Groups.visitAll (tgCfsSchedulableDown cfg d) tgNop (F.events ++ rest) m
        = .ok (einval, m')) := by
  induction F generalizing p q m rest with
  | nil => exact ⟨m, rfl, fun _ _ => rfl, fun _ => rfl, fun hno => absurd trivial hno⟩
  | cons a c r ihc ihr =>
      have hdown := tgCfsSchedulableDown_eq (h.roots a List.mem_cons_self) h.hierarchal
        (h.normalize a List.mem_cons_self) h.lt_over (h.lt a List.mem_cons_self)
      have hevents : (cons a c r).events ++ rest
          = .enter a :: (c.events ++ (.leave a :: (r.events ++ rest))) := by simp [events]
      rw [hevents, Groups.visitAll, hdown]
      by_cases hhead : ∀ n ∈ l a, ∀ k ∈ q, n ≤ k
      · rw [if_pos hhead]
        change ∃ m', _ ∧ _ ∧ (_ → Groups.visitAll _ _ _ (setHierarchalQuota m a _) = _) ∧
          (_ → Groups.visitAll _ _ _ (setHierarchalQuota m a _) = _)
        rcases ihc (.leave a :: (r.events ++ rest)) h.children with
          ⟨m₂, hsame₂, hframe₂, hok₂, hfail₂⟩
        have hsame : SameQuotas m m₂ := hsame₂.trans (sameQuotas_setHierarchalQuota m a _)
        have hframe : ∀ g, g ≠ a → g ∉ c.preorder → m₂.group g = m.group g := by
          intro g hga hgc
          rw [hframe₂ g hgc, setHierarchalQuota, Mem.setGroup_group_of_ne m hga]
        have hframe' : ∀ g, g ∉ (cons a c r).preorder → m₂.group g = m.group g := fun g hg =>
          hframe g (fun heq => hg (heq ▸ List.mem_cons_self))
            fun hm => hg (List.mem_cons_of_mem a (List.mem_append_left _ hm))
        by_cases hlc : c.Limited l ((l a).or q)
        · have hp := hframe p h.nodup_cons.1 h.nodup_cons.2.2.2
          rcases ihr rest (h.rest hsame hp) with ⟨m₃, hsame₃, hframe₃, hok₃, hfail₃⟩
          refine ⟨m₃, hsame₃.trans hsame, fun g hg => ?_, fun hlim => ?_, fun hno => ?_⟩
          · rw [hframe₃ g fun hm => hg (List.mem_cons_of_mem a (List.mem_append_right _ hm)),
              hframe' g hg]
          · rw [hok₂ hlc]
            exact hok₃ hlim.2.2
          · rw [hok₂ hlc]
            exact hfail₃ fun hr => hno ⟨hhead, hlc, hr⟩
        · exact ⟨m₂, hsame, hframe', fun hlim => absurd hlim.2.1 hlc, fun _ => hfail₂ hlc⟩
      · rw [if_neg hhead]
        exact ⟨m, rfl, fun _ _ => rfl, fun hlim => absurd hlim.1 hhead, fun _ => rfl⟩

end Below

/-- **`__cfs_schedulable` compares each limit with the nearest one over it**, and reads no
hierarchical quota that it has not written itself. -/
theorem Tree.cfsSchedulable_eq (h : Tree m kids F) {period quota : BitVec 64}
    (hfuel : walkFuel m ≤ fuel)
    (hrange : ∀ a ∈ m.taskGroups, (cfsAsked m tg period quota a).InRange cfg) :
    ∃ m', SameQuotas m m' ∧
      (F.Limited (fun a => cfsLimit cfg (cfsAsked m tg period quota a)) none →
        cfsSchedulable cfg fuel tg period quota m = .ok (0, m')) ∧
      (¬F.Limited (fun a => cfsLimit cfg (cfsAsked m tg period quota a)) none →
        cfsSchedulable cfg fuel tg period quota m = .ok (einval, m')) := by
  have hlen := h.perm.length_eq
  rw [length_preorder] at hlen
  rw [walkFuel] at hfuel
  have hcall : cfsSchedulable cfg fuel tg period quota m
      = visitAll (tgCfsSchedulableDown cfg (cfsData tg period quota)) tgNop
        (cons m.rootTaskGroup F nil).events m :=
    h.walkTgTreeFrom_eq (keepsTree_tgCfsSchedulableDown _) keepsTree_tgNop h.root_mem h.shape.1
      h.shape.2.1 (h.perm.symm.nodup h.nodup) (by omega)
  have hroot : tgCfsSchedulableDown cfg (cfsData tg period quota) m.rootTaskGroup m
      = .ok (0, setHierarchalQuota m m.rootTaskGroup runtimeInf) := by
    rw [tgCfsSchedulableDown, h.parent_root]
    rfl
  have hsame := sameQuotas_setHierarchalQuota m m.rootTaskGroup runtimeInf
  have hnodup : (m.rootTaskGroup :: (F.preorder ++ [])).Nodup := h.perm.symm.nodup h.nodup
  rw [List.append_nil] at hnodup
  have hmem : ∀ a ∈ F.preorder, a ∈ m.taskGroups := fun a ha =>
    h.perm.subset (List.mem_cons_of_mem _ (List.mem_append_left _ ha))
  have hbelow : CfsBelow cfg (cfsData tg period quota)
      (fun a => cfsLimit cfg (cfsAsked m tg period quota a)) kids F m.rootTaskGroup none
      (setHierarchalQuota m m.rootTaskGroup runtimeInf) := by
    refine ⟨fun a ha => ?_, h.shape.2.1, fun a c hc => ?_, hnodup, ?_, fun n hn => by simp at hn,
      fun a ha => ?_, fun a ha => cfsLimit_lt (hrange a (hmem a ha))⟩
    · rw [hsame.parent]
      exact h.parent _ a (h.shape.1 ▸ ha)
    · rw [hsame.parent]
      exact h.parent a c hc
    · rw [cfsBandwidthOf, setHierarchalQuota, Mem.setGroup_group_self]
      rfl
    · rw [hsame.normalizeCfsQuota]
      exact normalizeCfsQuota_eq (hrange a (hmem a ha))
  rcases hbelow.visitAll [.leave m.rootTaskGroup] with ⟨m', hsame', -, hok, hfail⟩
  refine ⟨m', hsame'.trans hsame, fun hlim => ?_, fun hno => ?_⟩
  · rw [hcall, events, visitAll, hroot]
    exact hok hlim
  · rw [hcall, events, visitAll, hroot]
    exact hfail hno

/-! ## Limits and the limits above them -/

/-- No group has a limit above that of any group over it, if the groups have the bandwidths `b`. -/
def CfsFits (cfg : Config) (m : Mem G) (b : G → CfsBandwidth) : Prop :=
  ∀ a c, Relation.TransGen (ParentOf m) a c →
    ∀ x ∈ cfsLimit cfg (b c), ∀ y ∈ cfsLimit cfg (b a), x ≤ y

lemma Tree.limited_iff (h : Tree m kids F) {b : G → CfsBandwidth}
    (hroot : (b m.rootTaskGroup).quota = runtimeInf) :
    F.Limited (fun a => cfsLimit cfg (b a)) none ↔ CfsFits cfg m b := by
  have hnone : cfsLimit cfg (b m.rootTaskGroup) = none := if_pos hroot
  have hwhole : F.Limited (fun a => cfsLimit cfg (b a)) none ↔
      (cons m.rootTaskGroup F nil).Limited (fun a => cfsLimit cfg (b a)) none := by
    simp [Limited, hnone]
  have hrel : ParentOf m = Child kids := by
    funext x y
    exact propext h.parentOf_iff
  have hpath : ∀ {t : G} {path : List G}, (t, path) ∈ (cons m.rootTaskGroup F nil).paths [] →
      ∀ {x : G}, x ∈ path ↔ Relation.TransGen (Child kids) x t := fun ht =>
    mem_path_iff h.parent_unique h.shape (fun r hr s hs =>
      h.kid_ne_root hs (List.mem_singleton.mp hr)) ht
  rw [hwhole, Forest.limited_iff least_nil, CfsFits, hrel]
  constructor
  · intro hall a c hac
    rcases Relation.TransGen.tail'_iff.mp hac with ⟨p, -, hpc⟩
    have hc := h.perm.symm.subset (h.kid_mem hpc)
    rcases (mem_preorder_iff_paths []).mp hc with ⟨path, hmem⟩
    exact fun x hx y hy => hall (c, path) hmem x hx a ((hpath hmem).mpr hac) y hy
  · rintro hall ⟨c, path⟩ hmem x hx a ha y hy
    exact hall a c ((hpath hmem).mp ha) x hx y hy

/-- The same period and quota. -/
def CfsBandwidth.Same (b b' : CfsBandwidth) : Prop := b'.period = b.period ∧ b'.quota = b.quota

lemma CfsBandwidth.Same.cfsLimit {b b' : CfsBandwidth} (h : b.Same b') :
    cfsLimit cfg b' = cfsLimit cfg b := by
  rw [Groups.cfsLimit, h.1, h.2, Groups.cfsLimit]

lemma CfsBandwidth.InRange.congr {b b' : CfsBandwidth} (hb : b.InRange cfg) (h : b.Same b') :
    b'.InRange cfg := by
  refine ⟨?_, ?_, ?_⟩
  · rw [h.1]
    exact hb.min_le
  · rw [h.1]
    exact hb.le_max
  · rw [h.2]
    exact hb.quota

/-- The bandwidths `b` of the groups are admitted. -/
structure CfsSettledWith (cfg : Config) (m : Mem G) (b : G → CfsBandwidth) : Prop where
  range : ∀ a ∈ m.taskGroups, (b a).InRange cfg
  root : (b m.rootTaskGroup).quota = runtimeInf
  fits : CfsFits cfg m b

/-- The bandwidths of the groups are admitted. -/
abbrev CfsSettled (cfg : Config) (m : Mem G) : Prop := CfsSettledWith cfg m (cfsBandwidthOf m)

/-- What `CfsSettled` reads: the groups are the same, and have the periods and quotas of `b`. -/
structure SameGroups (m : Mem G) (b : G → CfsBandwidth) (m' : Mem G) : Prop where
  taskGroups : m'.taskGroups = m.taskGroups
  rootTaskGroup : m'.rootTaskGroup = m.rootTaskGroup
  parent : ∀ g, (m'.group g).parent = (m.group g).parent
  bandwidth : ∀ g, (b g).Same (cfsBandwidthOf m' g)

omit [DecidableEq G] in
lemma SameGroups.parentOf {b : G → CfsBandwidth} (h : SameGroups m b m') :
    ParentOf m' = ParentOf m := by
  funext x y
  rw [ParentOf, ParentOf, h.taskGroups, h.parent]

omit [DecidableEq G] in
lemma CfsSettledWith.settled {b : G → CfsBandwidth} (h : CfsSettledWith cfg m b)
    (hs : SameGroups m b m') : CfsSettled cfg m' := by
  refine ⟨fun a ha => ?_, ?_, fun a c hac => ?_⟩
  · rw [hs.taskGroups] at ha
    exact (h.range a ha).congr (hs.bandwidth a)
  · rw [hs.rootTaskGroup, (hs.bandwidth _).2]
    exact h.root
  · rw [hs.parentOf] at hac
    rw [(hs.bandwidth a).cfsLimit, (hs.bandwidth c).cfsLimit]
    exact h.fits a c hac

omit [DecidableEq G] in
lemma SameQuotas.bandwidth (h : SameQuotas m m') (g : G) :
    (cfsBandwidthOf m g).Same (cfsBandwidthOf m' g) :=
  ⟨h.read fun m => (m.group g).cfsBandwidth.period, h.read fun m => (m.group g).cfsBandwidth.quota⟩

omit [DecidableEq G] in
lemma SameQuotas.sameGroups (h : SameQuotas m m') : SameGroups m (cfsBandwidthOf m) m' :=
  ⟨h.sameTree.taskGroups, h.sameTree.rootTaskGroup, h.parent, h.bandwidth⟩

/-- The end of `tg_set_cfs_bandwidth`. -/
def setCfsBandwidth (m : Mem G) (tg : G) (period quota : BitVec 64) : Mem G :=
  m.setGroup tg fun g =>
    { g with cfsBandwidth := { g.cfsBandwidth with period := period, quota := quota } }

/-- A bandwidth is written after a check that has written hierarchical quotas. -/
lemma SameQuotas.sameGroups_setGroup (h : SameQuotas m m') (tg : G) (period quota : BitVec 64) :
    SameGroups m (cfsAsked m tg period quota) (setCfsBandwidth m' tg period quota) := by
  refine ⟨h.sameTree.taskGroups, h.sameTree.rootTaskGroup, fun g => ?_, fun g => ?_⟩
  · rw [← h.parent]
    exact (sameTree_setGroup m' tg rfl).parent g
  · by_cases hg : g = tg
    · rw [hg, cfsAsked, Function.update_self, CfsBandwidth.Same]
      simp only [cfsBandwidthOf, setCfsBandwidth, Mem.setGroup_group_self, and_self]
    · rw [cfsAsked, Function.update_of_ne hg, CfsBandwidth.Same]
      simp only [cfsBandwidthOf, setCfsBandwidth, Mem.setGroup_group_of_ne m' hg]
      exact h.bandwidth g

/-! ## Runs -/

/-- What `init_cfs_bandwidth` of `fair.c` sets: no quota, and a period that may be set. -/
structure CfsDefaults (cfg : Config) : Prop where
  quota : cfg.initCfsBandwidth.quota = runtimeInf
  range : cfg.initCfsBandwidth.InRange cfg

/-- The bandwidth that a write to `cpu.cfs_quota_us` or to `cpu.cfs_period_us` asks for. -/
def Op.cfsRequest (cfg : Config) (m : Mem G) : Op G → Option (G × BitVec 64 × BitVec 64)
  | .setCfsQuota tg val =>
      some (tg, (cfsBandwidthOf m tg).period,
        if (val.setWidth cfg.wordSize).msb then runtimeInf
        else (val.setWidth cfg.wordSize).signExtend 64 * nsecPerUsec)
  | .setCfsPeriod tg val =>
      some (tg, (val.setWidth cfg.wordSize).signExtend 64 * nsecPerUsec,
        (cfsBandwidthOf m tg).quota)
  | _ => none

/-- What is to hold for a request to be granted. -/
def CfsGrantable (cfg : Config) (m : Mem G) (tg : G) (period quota : BitVec 64) : Prop :=
  tg ≠ m.rootTaskGroup ∧ minCfsQuotaPeriod ≤ quota ∧ minCfsQuotaPeriod ≤ period ∧
    period ≤ maxCfsQuotaPeriod ∧ CfsFits cfg m (cfsAsked m tg period quota)

/-- A `long` of microseconds, as nanoseconds and back. -/
lemma usec_inRange {x : BitVec 64} (h : (x.setWidth cfg.wordSize).msb = false) :
    ((x.setWidth cfg.wordSize).signExtend 64 * nsecPerUsec / nsecPerUsec).toNat
      < 2 ^ (cfg.wordSize - 1) := by
  rcases toNat_signExtend_usec h with ⟨hnat, hlt⟩
  have hmul : ((x.setWidth cfg.wordSize).signExtend 64 * nsecPerUsec).toNat
      ≤ ((x.setWidth cfg.wordSize).signExtend 64).toNat * 1000 := by
    rw [BitVec.toNat_mul]
    exact Nat.mod_le _ _
  rw [toNat_div_usec]
  omega

lemma CfsSettledWith.asked (h : CfsSettled cfg m) {period quota : BitVec 64}
    (hmin : minCfsQuotaPeriod ≤ period) (hmax : period ≤ maxCfsQuotaPeriod)
    (hquota : quota = runtimeInf ∨ (quota / nsecPerUsec).toNat < 2 ^ (cfg.wordSize - 1))
    (hroot : tg ≠ m.rootTaskGroup) (a : G) :
    (a ∈ m.taskGroups → (cfsAsked m tg period quota a).InRange cfg) ∧
      (cfsAsked m tg period quota m.rootTaskGroup).quota = runtimeInf := by
  refine ⟨fun ha => ?_, ?_⟩
  · rw [cfsAsked]
    by_cases hat : a = tg
    · rw [hat, Function.update_self]
      exact ⟨hmin, hmax, hquota⟩
    · rw [Function.update_of_ne hat]
      exact h.range a ha
  · rw [cfsAsked, Function.update_of_ne (Ne.symm hroot)]
    exact h.root

/-- `tg_set_cfs_bandwidth` in a state where every group fits. -/
lemma CfsSettledWith.tgSetCfsBandwidth (h : CfsSettled cfg m) (ht : Tree m kids F) (tg : G)
    (period : BitVec 64) {quota : BitVec 64}
    (hquota : quota = runtimeInf ∨ (quota / nsecPerUsec).toNat < 2 ^ (cfg.wordSize - 1)) :
    ∃ ret m', Groups.tgSetCfsBandwidth cfg (walkFuel m) tg period quota m = .ok (ret, m') ∧
      (ret = 0 ↔ CfsGrantable cfg m tg period quota) ∧
      (ret = 0 → ∃ m₁, SameQuotas m m₁ ∧ m' = setCfsBandwidth m₁ tg period quota) ∧
      (ret ≠ 0 → ret = einval ∧ SameQuotas m m') := by
  have hrefuse : ¬CfsGrantable cfg m tg period quota →
      Groups.tgSetCfsBandwidth cfg (walkFuel m) tg period quota m = .ok (einval, m) →
      ∃ ret m', Groups.tgSetCfsBandwidth cfg (walkFuel m) tg period quota m = .ok (ret, m') ∧
        (ret = 0 ↔ CfsGrantable cfg m tg period quota) ∧
        (ret = 0 → ∃ m₁, SameQuotas m m₁ ∧ m' = setCfsBandwidth m₁ tg period quota) ∧
        (ret ≠ 0 → ret = einval ∧ SameQuotas m m') := fun hno hcall =>
    ⟨einval, m, hcall, iff_of_false (by decide) hno, fun heq => absurd heq (by decide),
      fun _ => ⟨rfl, rfl⟩⟩
  by_cases hroot : tg = m.rootTaskGroup
  · refine hrefuse (fun hgrant => hgrant.1 hroot) ?_
    rw [Groups.tgSetCfsBandwidth, if_pos hroot]
    rfl
  by_cases hmin : quota < minCfsQuotaPeriod ∨ period < minCfsQuotaPeriod
  · refine hrefuse (fun hgrant => ?_) ?_
    · exact hmin.elim (BitVec.not_lt.mpr hgrant.2.1) (BitVec.not_lt.mpr hgrant.2.2.1)
    · rw [Groups.tgSetCfsBandwidth, if_neg hroot, if_pos hmin]
      rfl
  by_cases hmax : maxCfsQuotaPeriod < period
  · refine hrefuse (fun hgrant => absurd hmax (BitVec.not_lt.mpr hgrant.2.2.2.1)) ?_
    rw [Groups.tgSetCfsBandwidth, if_neg hroot, if_neg hmin, if_pos hmax]
    rfl
  have hcall : ∀ {r : ℤ} {m₁ : Mem G},
      cfsSchedulable cfg (walkFuel m) tg period quota m = .ok (r, m₁) →
      Groups.tgSetCfsBandwidth cfg (walkFuel m) tg period quota m
        = if r ≠ 0 then .ok (r, m₁) else .ok (r, setCfsBandwidth m₁ tg period quota) := by
    intro r m₁ hcheck
    rw [Groups.tgSetCfsBandwidth, if_neg hroot, if_neg hmin, if_neg hmax, hcheck]
    rfl
  rw [not_or, BitVec.not_lt, BitVec.not_lt] at hmin
  rw [BitVec.not_lt] at hmax
  have hasked := h.asked hmin.2 hmax hquota hroot
  rcases ht.cfsSchedulable_eq le_rfl fun a ha => (hasked a).1 ha with ⟨m₁, hsame, hok, hfail⟩
  have hlimited : F.Limited _ none ↔ CfsFits cfg m (cfsAsked m tg period quota) :=
    ht.limited_iff (hasked tg).2
  by_cases hfits : CfsFits cfg m (cfsAsked m tg period quota)
  · exact ⟨0, _, hcall (hok (hlimited.mpr hfits)),
      iff_of_true rfl ⟨hroot, hmin.1, hmin.2, hmax, hfits⟩,
      fun _ => ⟨m₁, hsame, rfl⟩, fun hne => absurd rfl hne⟩
  · exact ⟨einval, m₁, hcall (hfail fun hlim => hfits (hlimited.mp hlim)),
      iff_of_false (by decide) fun hgrant => hfits hgrant.2.2.2.2,
      fun heq => absurd heq (by decide), fun _ => ⟨rfl, hsame⟩⟩

/-- The quota and the period that a request keeps or brings are in range. -/
lemma CfsSettledWith.request_inRange (h : CfsSettled cfg m) {op : Op G} (hop : Allowed m op)
    {period quota : BitVec 64} (hreq : op.cfsRequest cfg m = some (tg, period, quota)) :
    (quota = runtimeInf ∨ (quota / nsecPerUsec).toNat < 2 ^ (cfg.wordSize - 1)) ∧
      step cfg m op = Groups.tgSetCfsBandwidth cfg (walkFuel m) tg period quota m := by
  cases op with
  | setCfsQuota x val =>
      obtain ⟨rfl, hpair⟩ := Prod.mk.inj (Option.some.inj hreq)
      obtain ⟨rfl, rfl⟩ := Prod.mk.inj hpair
      refine ⟨?_, rfl⟩
      split_ifs with hmsb
      · exact .inl rfl
      · exact .inr (usec_inRange (Bool.not_eq_true _ ▸ hmsb))
  | setCfsPeriod x val =>
      obtain ⟨rfl, hpair⟩ := Prod.mk.inj (Option.some.inj hreq)
      obtain ⟨rfl, rfl⟩ := Prod.mk.inj hpair
      exact ⟨(h.range x hop).quota, rfl⟩
  | _ => simp [Op.cfsRequest] at hreq

/-- A write to the real-time side leaves the quotas alone. -/
lemma sameGroups_tgSetRtBandwidth {period runtime : BitVec 64}
    (h : tgSetRtBandwidth cfg fuel tg period runtime m = .ok (ret, m')) :
    SameGroups m (cfsBandwidthOf m) m' := by
  rcases tgSetRtBandwidth_cases h with ⟨-, -, rfl⟩ | ⟨-, -, rfl⟩
  · exact ⟨rfl, rfl, fun _ => rfl, fun _ => ⟨rfl, rfl⟩⟩
  · refine ⟨rfl, rfl, (sameTree_setGroup m tg rfl).parent, fun g => ?_⟩
    by_cases hg : g = tg
    · rw [hg, CfsBandwidth.Same]
      simp only [cfsBandwidthOf, Mem.setGroup_group_self, and_self]
    · rw [CfsBandwidth.Same]
      simp only [cfsBandwidthOf, Mem.setGroup_group_of_ne m hg, and_self]

lemma CfsSettledWith.create (h : CfsSettled cfg m) (ht : Tree m kids F) (hcfg : CfsDefaults cfg)
    {parent : G} (htg : tg ∉ m.taskGroups) :
    CfsSettled cfg (schedCreateGroup cfg m parent tg true).2 := by
  have hother : ∀ c ∈ m.taskGroups, (schedCreateGroup cfg m parent tg true).2.group c = m.group c :=
    fun c hc => Function.update_of_ne (fun heq : c = tg => htg (heq ▸ hc)) _ _
  have hself : (schedCreateGroup cfg m parent tg true).2.group tg = allocGroup cfg m parent :=
    Function.update_self _ _ _
  have hnone : cfsLimit cfg
      (cfsBandwidthOf (schedCreateGroup cfg m parent tg true).2 tg) = none := by
    rw [cfsBandwidthOf, hself]
    exact if_pos hcfg.quota
  -- the parents of the groups that were there are groups that were there
  have hold : ∀ {a c}, ParentOf (schedCreateGroup cfg m parent tg true).2 a c → c ≠ tg →
      ParentOf m a c ∧ a ∈ m.taskGroups := by
    intro a c hac hne
    have hc : c ∈ m.taskGroups := (List.mem_cons.mp hac.1).resolve_left hne
    have hpar := hac.2
    rw [hother c hc] at hpar
    exact ⟨⟨hc, hpar⟩, ht.mem_of_kids (ht.mem_kids_of_parent hc hpar)⟩
  have htrans : ∀ {a c},
      Relation.TransGen (ParentOf (schedCreateGroup cfg m parent tg true).2) a c →
      c ≠ tg → Relation.TransGen (ParentOf m) a c ∧ a ∈ m.taskGroups := by
    intro a c hac
    induction hac with
    | single hac =>
        intro hne
        exact ⟨.single (hold hac hne).1, (hold hac hne).2⟩
    | tail _ hbc ih =>
        intro hne
        rcases hold hbc hne with ⟨hbc', hb⟩
        rcases ih (fun heq => htg (heq ▸ hb)) with ⟨hab, ha⟩
        exact ⟨hab.tail hbc', ha⟩
  refine ⟨fun a ha => ?_, ?_, fun a c hac x hx y hy => ?_⟩
  · rcases List.mem_cons.mp ha with rfl | ha
    · rw [cfsBandwidthOf, hself]
      exact hcfg.range
    · rw [cfsBandwidthOf, hother a ha]
      exact h.range a ha
  · change ((schedCreateGroup cfg m parent tg true).2.group m.rootTaskGroup).cfsBandwidth.quota = _
    rw [hother _ ht.root_mem]
    exact h.root
  · by_cases hc : c = tg
    · rw [hc, hnone] at hx
      simp at hx
    · rcases htrans hac hc with ⟨hac', ha⟩
      have hcm : c ∈ m.taskGroups := by
        rcases Relation.TransGen.tail'_iff.mp hac' with ⟨b, -, hbc⟩
        exact hbc.1
      rw [cfsBandwidthOf, hother c hcm] at hx
      rw [cfsBandwidthOf, hother a ha] at hy
      exact h.fits a c hac' x hx y hy

lemma CfsSettledWith.destroy (h : CfsSettled cfg m) (tg : G) :
    CfsSettled cfg (schedDestroyGroup m tg) :=
  ⟨fun a ha => h.range a (List.mem_of_mem_erase ha), h.root, fun a c hac =>
    h.fits a c (hac.lift id fun _ _ hp => ⟨List.mem_of_mem_erase hp.1, hp.2⟩)⟩

lemma CfsSettledWith.step (h : CfsSettled cfg m) (ht : Tree m kids F) (hcfg : CfsDefaults cfg)
    {op : Op G} (hop : Allowed m op) (hstep : Groups.step cfg m op = .ok (ret, m')) :
    CfsSettled cfg m' := by
  have hset : ∀ {tg : G} {period quota : BitVec 64},
      op.cfsRequest cfg m = some (tg, period, quota) → CfsSettled cfg m' := by
    intro tg period quota hreq
    rcases h.request_inRange hop hreq with ⟨hquota, hcall⟩
    rcases h.tgSetCfsBandwidth ht tg period hquota with ⟨r, m₁, hr, hiff, hok, hfail⟩
    obtain ⟨rfl, rfl⟩ := Prod.mk.inj (Except.ok.inj ((hr.symm.trans hcall.symm).trans hstep))
    by_cases hzero : r = 0
    · rcases hiff.mp hzero with ⟨hroot, -, hmin, hmax, hfits⟩
      have hasked := h.asked hmin hmax hquota hroot
      rcases hok hzero with ⟨m₂, hsame, rfl⟩
      exact CfsSettledWith.settled ⟨fun a ha => (hasked a).1 ha, (hasked tg).2, hfits⟩
        (hsame.sameGroups_setGroup tg period quota)
    · exact h.settled (hfail hzero).2.sameGroups
  cases op with
  | createGroup parent tg allocOk =>
      obtain ⟨-, rfl⟩ := Prod.mk.inj (Except.ok.inj hstep)
      cases allocOk with
      | false => exact h
      | true => exact h.create ht hcfg hop.2
  | destroyGroup tg =>
      obtain ⟨-, rfl⟩ := Prod.mk.inj (Except.ok.inj hstep)
      exact h.destroy tg
  | setRtRuntime tg val => exact h.settled (sameGroups_tgSetRtBandwidth hstep)
  | setRtPeriod tg val =>
      rw [Groups.step, schedGroupSetRtPeriod] at hstep
      split_ifs at hstep
      · obtain ⟨-, rfl⟩ := Prod.mk.inj (Except.ok.inj hstep)
        exact h
      · exact h.settled (sameGroups_tgSetRtBandwidth hstep)
  | rtHandler period runtime =>
      rcases schedRtHandler_cases hstep with ⟨-, rfl⟩ | ⟨-, -, -, -, rfl⟩
      · exact h
      · exact h.settled ⟨rfl, rfl, fun _ => rfl, fun _ => ⟨rfl, rfl⟩⟩
  | setCfsQuota tg val => exact hset rfl
  | setCfsPeriod tg val => exact hset rfl
  | rtTask b =>
      obtain ⟨-, rfl⟩ := Prod.mk.inj (Except.ok.inj hstep)
      exact h.settled ⟨rfl, rfl, fun _ => rfl, fun _ => ⟨rfl, rfl⟩⟩

theorem Reachable.cfsSettled {root : G} (hcfg : CfsDefaults cfg) (h : Reachable cfg root m) :
    CfsSettled cfg m := by
  induction h with
  | init => exact ⟨fun _ _ => hcfg.range, hcfg.quota, fun a c _ x hx => by
      rw [show cfsLimit cfg (cfsBandwidthOf (Groups.init cfg root) c) = none from
        if_pos hcfg.quota] at hx
      simp at hx⟩
  | step hreach hop hstep ih =>
      rcases hreach.tree with ⟨kids, F, ht⟩
      exact ih.step ht hcfg hop hstep

/-- **A quota is within the quota of every group above**, in every reachable state. -/
theorem cfs_limit_le_above {root : G} (hcfg : CfsDefaults cfg) (h : Reachable cfg root m) {c : G}
    (hac : Relation.TransGen (ParentOf m) a c) :
    ∀ x ∈ cfsLimit cfg (cfsBandwidthOf m c), ∀ y ∈ cfsLimit cfg (cfsBandwidthOf m a), x ≤ y :=
  (h.cfsSettled hcfg).fits a c hac

lemma cfsDefaults_smallConfig : CfsDefaults smallConfig :=
  ⟨rfl, by decide, by decide, .inl rfl⟩

/-- The group `4` is below `2`, and both have a quota. -/
theorem cfs_limit_le_above_two :
    ∃ m, runOps smallConfig (init smallConfig 1)
        [.createGroup 1 2 true, .setCfsQuota 2 50000, .createGroup 2 4 true,
          .setCfsQuota 4 20000] = some m ∧
      ∀ x ∈ cfsLimit smallConfig (cfsBandwidthOf m 4),
        ∀ y ∈ cfsLimit smallConfig (cfsBandwidthOf m 2), x ≤ y := by
  have hrun : ∃ m, runOps smallConfig (init smallConfig 1)
      [.createGroup 1 2 true, .setCfsQuota 2 50000, .createGroup 2 4 true,
        .setCfsQuota 4 20000] = some m ∧
      4 ∈ m.taskGroups ∧ (m.group 4).parent = some 2 := Sched.exists_of_any (by decide)
  rcases hrun with ⟨m, hm, hpar⟩
  exact ⟨m, hm, cfs_limit_le_above cfsDefaults_smallConfig (Reachable.runOps _ .init hm)
    (.single hpar)⟩

end Groups
