import OsPrj.Sched.Layout

/-!
# Picking the next task

* `Sound.pickNextTaskWrr` — the WRR class offers the head of its queue, or nothing when the queue
  is empty.
* `Sound.pickNextTaskRt` — the RT class offers the head of its first nonempty queue, or nothing.
* `Layout.classPickNextTask` — every class offers a task of its own or declines, and a class that
  **declines leaves everything alone**.
* `Layout.pickNextTask_eq` — so the shortcut of `pick_next_task` is the walk over the classes.
-/

namespace Sched

open ListHead

variable {T E : Type} [DecidableEq T]

section Queues

variable {s : Sys T E} {wrr : List T} {rt : ℤ → List T}

/-- The head of the WRR queue is never misread. -/
lemma Sound.pickNextWrrEntity {p : T} {l : List T} (h : Sound s (p :: l) rt) :
    pickNextWrrEntity s = .ok p := by
  have hnext := h.represents.next_head .wrrQueue
  simp only [queueLists, List.map_cons, List.head?_cons, Option.map_some, Option.getD_some] at hnext
  rw [Sched.pickNextWrrEntity, hnext]
  rfl

/-- The state after `pick_next_task_wrr` returned `p`. -/
def wrrPicked (s : Sys T E) (p : T) : Sys T E :=
  { s.setSe p fun se => { se with execStart := s.acct.clockTask } with
    wrrPicks := s.wrrPicks ++ [p] }

/-- **What the WRR class offers.** -/
theorem Sound.pickNextTaskWrr (h : Sound s wrr rt) (hthrottled : s.acct.wrrThrottled = false) :
    pickNextTaskWrr s = .ok (wrr.head?, wrr.head?.elim s (wrrPicked s)) := by
  have hnr := h.wrrNr
  rw [Sched.pickNextTaskWrr, wrrRqThrottled, hthrottled]
  cases wrr with
  | nil => simp [hnr]
  | cons p l =>
      have hne : (s.queues.wrrNrRunning == 0) = false := by
        rw [beq_eq_false_iff_ne, hnr, List.length_cons]
        omega
      rw [hne, h.pickNextWrrEntity]
      rfl

/-- The first set bit, if one is set. -/
lemma schedFindFirstBit_spec {bitmap : ℤ → Bool} {i : ℤ} (hi : 0 ≤ i ∧ i < maxRtPrio)
    (hbit : bitmap i = true) :
    (schedFindFirstBit bitmap : ℤ) < maxRtPrio ∧ bitmap (schedFindFirstBit bitmap) = true ∧
      ∀ j : ℤ, 0 ≤ j → j < schedFindFirstBit bitmap → bitmap j = false := by
  rw [schedFindFirstBit]
  cases hfind : (List.range maxRtPrio.toNat).find? fun i : ℕ => bitmap i with
  | none =>
      have hnone := List.find?_eq_none.mp hfind i.toNat
        (List.mem_range.mpr ((Int.toNat_lt_toNat (by decide)).mpr hi.2))
      rw [Int.toNat_of_nonneg hi.1] at hnone
      exact absurd hbit hnone
  | some n =>
      rcases List.find?_range_eq_some.mp hfind with ⟨hn, hmem, hlt⟩
      rw [Option.getD_some]
      refine ⟨?_, hn, fun j hj hjn => ?_⟩
      · exact Int.lt_toNat.mp (List.mem_range.mp hmem)
      · have hfalse := hlt j.toNat (by omega)
        rwa [Int.toNat_of_nonneg hj, Bool.not_eq_true'] at hfalse

/-- The counter tells whether there is an RT task. -/
lemma Sound.rtNr_eq_zero_iff (h : Sound s wrr rt) :
    s.queues.rtNrRunning = 0 ↔ ∀ i, rt i = [] := by
  rw [h.rtNr, Finset.sum_eq_zero_iff_of_nonneg fun j _ => by simp]
  constructor
  · intro hzero i
    by_contra hne
    have hlen := hzero i (Finset.mem_Ico.mpr (h.range i hne))
    exact hne (List.length_eq_zero_iff.mp (by exact_mod_cast hlen))
  · intro hnil i _
    rw [hnil i]
    rfl

/-- **What the RT class offers**, while it is not throttled. -/
theorem Sound.pickNextTaskRt (h : Sound s wrr rt) (hthrottled : s.acct.rtThrottled = false) :
    ((∀ i, rt i = []) ∧ pickNextTaskRt s = .ok (none, s)) ∨
      ∃ i p l, rt i = p :: l ∧ (∀ j < i, rt j = []) ∧ pickNextTaskRt s =
        .ok (some p, s.setSe p fun se => { se with execStart := s.acct.clockTask }) := by
  rw [Sched.pickNextTaskRt, rtRqThrottled, hthrottled]
  by_cases hzero : s.queues.rtNrRunning = 0
  · exact .inl ⟨h.rtNr_eq_zero_iff.mp hzero, by simp [hzero]⟩
  · right
    have hsome : ∃ i, rt i ≠ [] := by
      by_contra! hnil
      exact hzero (h.rtNr_eq_zero_iff.mpr hnil)
    rcases hsome with ⟨k, hk⟩
    have hfirst := schedFindFirstBit_spec (h.range k hk) ((h.bitmap k).mpr hk)
    generalize hidx : schedFindFirstBit s.queues.bitmap = i at hfirst
    rcases hfirst with ⟨hlt, hbit, hbelow⟩
    rcases List.exists_cons_of_ne_nil ((h.bitmap _).mp hbit) with ⟨p, l, hl⟩
    have hnext := h.represents.next_head (.queue i)
    simp only [queueLists, hl, List.map_cons, List.head?_cons, Option.map_some,
      Option.getD_some] at hnext
    refine ⟨i, p, l, hl, fun j hj => ?_, ?_⟩
    · by_contra hne
      have hset := (h.bitmap j).mpr hne
      rw [hbelow j (h.range j hne).1 hj] at hset
      exact Bool.noConfusion hset
    · have hentity : pickNextRtEntity s = .ok p := by
        rw [pickNextRtEntity, hidx, if_neg (not_le.mpr hlt), hnext]
        rfl
      rw [beq_eq_false_iff_ne.mpr hzero, hentity]
      rfl

end Queues

/-! ## Every class -/

/-- The class that holds the tasks of a place. -/
def Place.schedClass : Place → Option SchedClass
  | .wrr => some .wrr
  | .rt _ => some .rt
  | .other .stop => some .stop
  | .other .fair => some .fair
  | _ => none

lemma TaskStruct.spot_schedClass (t : TaskStruct) (ht : t.schedClass ≠ .idle) :
    t.spot.schedClass = some t.schedClass := by
  rw [spot]
  cases hc : t.schedClass with
  | idle => exact absurd hc ht
  | stop | rt | wrr | fair => rfl

lemma Place.schedClass_eq_wrr_iff (x : Place) : x.schedClass = some .wrr ↔ x = .wrr := by
  cases x with
  | other c => cases c <;> simp [schedClass]
  | off | wrr | rt i => simp [schedClass]

lemma Place.schedClass_eq_rt_iff (x : Place) : x.schedClass = some .rt ↔ ∃ i, x = .rt i := by
  cases x with
  | other c => cases c <;> simp [schedClass]
  | off | wrr | rt i => simp [schedClass]

lemma Place.schedClass_eq_other_iff (x : Place) {c : SchedClass} (hc : c = .stop ∨ c = .fair) :
    x.schedClass = some c ↔ x = .other c := by
  rcases hc with rfl | rfl <;> cases x with
  | other c => cases c <;> simp [schedClass]
  | off | wrr | rt i => simp [schedClass]

variable {queued : E → SchedClass → Finset T} {s s' : Sys T E} {place : T → Place} {wrr : List T}
  {K : Kernel T E}

/-- What a pick of `p` by the class `c` changes: execution times, and the record of the WRR
picks. -/
structure Picked (queued : E → SchedClass → Finset T) (c : SchedClass) (p : T) (s s' : Sys T E)
    (wrr : List T) : Prop where
  quiet : Quiet queued s { s' with wrrPicks := s.wrrPicks }
  picks : c ≠ .wrr ∧ s'.wrrPicks = s.wrrPicks ∨
    c = .wrr ∧ wrr.head? = some p ∧ s'.wrrPicks = s.wrrPicks ++ [p]

omit [DecidableEq T] in
/-- A pick that the record does not show. -/
lemma Picked.of_quiet {c : SchedClass} (hc : c ≠ .wrr) (h : Quiet queued s s') (p : T)
    (wrr : List T) : Picked queued c p s s' wrr :=
  ⟨⟨⟨h.core, h.resched, rfl, h.wrrThrottled, h.rtThrottled⟩, h.queues, h.view, h.warnings⟩,
    .inl ⟨hc, h.picks⟩⟩

/-- The class `c` offers `p`. -/
def Offers (K : Kernel T E) (c : SchedClass) (s : Sys T E) (p : T) (s' : Sys T E) : Prop :=
  classPickNextTask K c s = .ok (some p, s')

/-- The class `c` has nothing to offer and leaves everything alone. -/
def Declines (K : Kernel T E) (c : SchedClass) (s : Sys T E) : Prop :=
  classPickNextTask K c s = .ok (none, s)

lemma applyHook_self (s : Sys T E) :
    s.applyHook { other := s.other, acct := s.acct, resched := false } = s := rfl

/-- `stop` and `fair` decline when they hold no task, and else offer one that they hold. -/
lemma Layout.pickOther (hK : Laws K queued) (h : Layout queued s place wrr) {c : SchedClass}
    (hc : c = .stop ∨ c = .fair) :
    (Declines K c s ∧ ∀ p, place p ≠ .other c) ∨
      ∃ p s', Offers K c s p s' ∧ Picked queued c p s s' wrr ∧ place p = .other c := by
  have hclass : classPickNextTask K c s =
      .ok ((K.pickOther c s).1, s.applyHook (K.pickOther c s).2) := by
    rcases hc with rfl | rfl <;> rfl
  cases hpick : (K.pickOther c s).1 with
  | none =>
      left
      refine ⟨?_, fun p hp => ?_⟩
      · rw [Declines, hclass, hpick, hK.pickNoneKeeps c s hc hpick, applyHook_self]
      · have hmem := (h.mem_other p c).mpr hp
        rw [(hK.pickNone c s hc).mp hpick] at hmem
        exact absurd hmem (Finset.notMem_empty p)
  | some p =>
      right
      refine ⟨p, s.applyHook (K.pickOther c s).2, by rw [Offers, hclass, hpick], ?_, ?_⟩
      · exact .of_quiet (by rcases hc with rfl | rfl <;> simp)
          (quiet_applyHook s (hK.pick c s)) p wrr
      · exact (h.mem_other p c).mp (hK.pickMem c s p hc hpick)

/-- **What a class offers**: a task that is queued with it, or nothing; a class that declines has
no task, or is throttled. -/
theorem Layout.classPickNextTask (hK : Laws K queued) (h : Layout queued s place wrr)
    (hthrottled : s.acct.wrrThrottled = false) (c : SchedClass) :
    (Declines K c s ∧ c ≠ .idle ∧
        ∀ p, (place p).schedClass = some c → c = .rt ∧ s.acct.rtThrottled = true) ∨
      ∃ p s', Offers K c s p s' ∧ Picked queued c p s s' wrr ∧
        (c = .idle ∧ p = s.core.idle ∨ (place p).schedClass = some c) := by
  rcases h.sound with ⟨rt, hs, hrt⟩
  have hother : c = .stop ∨ c = .fair →
      (Declines K c s ∧ c ≠ .idle ∧
        ∀ p, (place p).schedClass = some c → c = .rt ∧ s.acct.rtThrottled = true) ∨
      ∃ p s', Offers K c s p s' ∧ Picked queued c p s s' wrr ∧
        (c = .idle ∧ p = s.core.idle ∨ (place p).schedClass = some c) := by
    intro hc
    rcases h.pickOther hK hc with ⟨hdecline, hnone⟩ | ⟨p, s', hoffer, hpicked, hp⟩
    · refine .inl ⟨hdecline, by rcases hc with rfl | rfl <;> simp, fun p hp => ?_⟩
      exact absurd ((Place.schedClass_eq_other_iff _ hc).mp hp) (hnone p)
    · exact .inr ⟨p, s', hoffer, hpicked, .inr ((Place.schedClass_eq_other_iff _ hc).mpr hp)⟩
  cases c with
  | stop => exact hother (.inl rfl)
  | fair => exact hother (.inr rfl)
  | idle =>
      refine .inr ⟨s.core.idle, s.applyHook (K.pickOther .idle s).2, ?_, ?_, .inl ⟨rfl, rfl⟩⟩
      · show Except.ok ((K.pickOther .idle s).1, _) = _
        rw [hK.pickIdle]
      · exact .of_quiet (by simp) (quiet_applyHook s (hK.pick .idle s)) _ wrr
  | wrr =>
      have hpick := hs.pickNextTaskWrr hthrottled
      cases wrr with
      | nil =>
          refine .inl ⟨hpick, by simp, fun p hp => ?_⟩
          have hmem := (h.mem_wrr p).mpr ((Place.schedClass_eq_wrr_iff _).mp hp)
          exact absurd hmem List.not_mem_nil
      | cons p l =>
          have hquiet : Quiet queued s (s.setSe p fun se => { se with
            execStart := s.acct.clockTask }) := quiet_setSe _ _ _
          refine .inr ⟨p, wrrPicked s p, hpick, ⟨hquiet, .inr ⟨rfl, rfl, rfl⟩⟩, .inr ?_⟩
          exact (Place.schedClass_eq_wrr_iff _).mpr ((h.mem_wrr p).mp List.mem_cons_self)
  | rt =>
      cases hthrottledRt : s.acct.rtThrottled with
      | true =>
          refine .inl ⟨?_, by simp, fun p _ => ⟨rfl, rfl⟩⟩
          show Sched.pickNextTaskRt s = _
          simp [Sched.pickNextTaskRt, rtRqThrottled, hthrottledRt]
      | false =>
          rcases hs.pickNextTaskRt hthrottledRt with ⟨hnil, hpick⟩ | ⟨i, p, l, hi, -, hpick⟩
          · refine .inl ⟨hpick, by simp, fun p hp => ?_⟩
            rcases (Place.schedClass_eq_rt_iff _).mp hp with ⟨i, hi⟩
            have hmem := (hrt p i).mpr hi
            rw [hnil i] at hmem
            exact absurd hmem List.not_mem_nil
          · refine .inr ⟨p, _, hpick, .of_quiet (by simp) (quiet_setSe _ _ _) p wrr, .inr ?_⟩
            exact (Place.schedClass_eq_rt_iff _).mpr ⟨i, (hrt p i).mp (hi ▸ List.mem_cons_self)⟩

/-! ## The walk and the shortcut -/

lemma Declines.pickFirst {c : SchedClass} (h : Declines K c s) (cs : List SchedClass) :
    pickFirst K (c :: cs) s = pickFirst K cs s := by
  rw [Sched.pickFirst, show Sched.classPickNextTask K c s = _ from h]
  rfl

lemma Offers.pickFirst {c : SchedClass} {p : T} (h : Offers K c s p s') (cs : List SchedClass) :
    pickFirst K (c :: cs) s = .ok (p, s') := by
  rw [Sched.pickFirst, show Sched.classPickNextTask K c s = _ from h]
  rfl

/-- The walk ends at the first class that does not decline. -/
theorem Layout.pickFirst (hK : Laws K queued) (h : Layout queued s place wrr)
    (hthrottled : s.acct.wrrThrottled = false) :
    ∀ cs : List SchedClass, SchedClass.idle ∈ cs → ∃ pre c suf p s', cs = pre ++ c :: suf ∧
      (∀ d ∈ pre, Declines K d s) ∧ Offers K c s p s' ∧ Sched.pickFirst K cs s = .ok (p, s')
  | [], hidle => absurd hidle List.not_mem_nil
  | c :: cs, hidle => by
      rcases h.classPickNextTask hK hthrottled c with ⟨hdecline, hne, -⟩ | ⟨p, s', hoffer, -⟩
      · have hidle' : SchedClass.idle ∈ cs := (List.mem_cons.mp hidle).resolve_left hne.symm
        rcases Layout.pickFirst hK h hthrottled cs hidle' with
          ⟨pre, d, suf, p, s', rfl, hpre, hoffer, hpick⟩
        refine ⟨c :: pre, d, suf, p, s', rfl, ?_, hoffer, (hdecline.pickFirst _).trans hpick⟩
        rintro d' (_ | ⟨_, hd'⟩)
        · exact hdecline
        · exact hpre d' hd'
      · exact ⟨[], c, cs, p, s', rfl, by simp, hoffer, hoffer.pickFirst cs⟩

/-- **The shortcut is taken only when every queued task is a fair one.** -/
lemma Layout.fair_of_shortcut (hK : Laws K queued) (h : Layout queued s place wrr)
    (hshort : s.queues.nrRunning = K.hNrRunning s.other) (p : T) (hp : place p ≠ .off) :
    place p = .other .fair := by
  rcases h.nr with ⟨P, hP, hcard⟩
  have hsub : queued s.other .fair ⊆ P := by
    intro q hq
    rw [hP, (h.mem_other q .fair).mp hq]
    simp
  have heq : queued s.other .fair = P := by
    refine Finset.eq_of_subset_of_card_le hsub ?_
    rw [hK.hNrRunning] at hshort
    omega
  rw [← h.mem_other, heq]
  exact (hP p).mpr hp

/-- **The shortcut of `pick_next_task` agrees with the walk**, in the task and in what it does. -/
theorem Layout.pickNextTask_eq (hK : Laws K queued) (h : Layout queued s place wrr)
    (hthrottled : s.acct.wrrThrottled = false) :
    pickNextTask K s = Sched.pickFirst K forEachClass s := by
  rw [pickNextTask]
  split_ifs with hshort
  · have hdecline : ∀ c, c ≠ .fair → c ≠ .idle → Declines K c s := by
      intro c hfair hidle
      rcases h.classPickNextTask hK hthrottled c with
        ⟨hdecline, -⟩ | ⟨p, s', -, -, ⟨rfl, -⟩ | hp⟩
      · exact hdecline
      · exact absurd rfl hidle
      · have hoff : place p ≠ .off := by
          intro hoff
          rw [hoff] at hp
          exact absurd hp (by simp [Place.schedClass])
        rw [h.fair_of_shortcut hK hshort p hoff] at hp
        exact absurd (Option.some.inj hp).symm hfair
    have hwalk : Sched.pickFirst K forEachClass s = Sched.pickFirst K [.fair, .idle] s := by
      rw [forEachClass, (hdecline .stop (by simp) (by simp)).pickFirst,
        (hdecline .rt (by simp) (by simp)).pickFirst,
        (hdecline .wrr (by simp) (by simp)).pickFirst]
    rcases h.classPickNextTask hK hthrottled .fair with ⟨hfair, -⟩ | ⟨p, s', hfair, -⟩
    · rw [show Sched.classPickNextTask K .fair s = _ from hfair]
      rfl
    · rw [hwalk, hfair.pickFirst, show Sched.classPickNextTask K .fair s = _ from hfair]
      rfl
  · rfl

/-- What `pick_next_task` returns is what some class offers, and all classes before it decline. -/
theorem Layout.pickNextTask (hK : Laws K queued) (h : Layout queued s place wrr)
    (hthrottled : s.acct.wrrThrottled = false) :
    ∃ pre c suf p s', forEachClass = pre ++ c :: suf ∧ (∀ d ∈ pre, Declines K d s) ∧
      Offers K c s p s' ∧ Sched.pickNextTask K s = .ok (p, s') := by
  rw [h.pickNextTask_eq hK hthrottled]
  exact h.pickFirst hK hthrottled forEachClass (by simp [forEachClass])

end Sched
