import OsPrj.Sched.NoBypass
import OsPrj.Sched.SliceWrites

/-!
# How long a task waits in the WRR queue

A task in front of `b` runs until its slice is used up and then goes behind `b`.  Nothing but the
tick writes a slice, and nobody gets in front of `b`.

* `frontWork` — the ticks that are left to those who stand in front of `b`.
* `FrontTicks` — a run, and how many ticks in it were ticks of a task in front of `b`.
* `front_wait_bounded` — **until `b` is picked there are at most `frontWork` of them**.
-/

namespace Sched

open Fifo ListHead

variable {T E : Type} [DecidableEq T]

/-! ## The front of the queue -/

/-- The ticks that are left to those who stand in front of `b`. -/
def frontWork (cfg : Config) (b : T) (order : List T) (slice : T → ℕ) : ℕ :=
  ∑ q ∈ (inFront b order).toFinset, ticksLeft cfg (slice q)

section

variable {cfg : Config} {b p : T} {l l' : List T} {slice slice' : T → ℕ}

lemma toFinset_inFront_subset (hsub : inFront b l' ⊆ inFront b l) :
    (inFront b l').toFinset ⊆ (inFront b l).toFinset :=
  fun _ hq => List.mem_toFinset.mpr (hsub (List.mem_toFinset.mp hq))

/-- Some go, and nobody gets more. -/
lemma frontWork_mono (hsub : inFront b l' ⊆ inFront b l)
    (hslice : ∀ q ∈ inFront b l', slice' q = slice q) :
    frontWork cfg b l' slice' ≤ frontWork cfg b l slice := by
  have hcongr : frontWork cfg b l' slice' = frontWork cfg b l' slice := by
    refine Finset.sum_congr rfl fun q hq => ?_
    rw [hslice q (List.mem_toFinset.mp hq)]
  rw [hcongr]
  exact Finset.sum_le_sum_of_subset (toFinset_inFront_subset hsub)

/-- One of them goes, or has a tick less. -/
lemma frontWork_lt (hsub : inFront b l' ⊆ inFront b l) (hp : p ∈ inFront b l)
    (hslice : ∀ q ∈ inFront b l', q ≠ p → slice' q = slice q)
    (htick : p ∈ inFront b l' → ticksLeft cfg (slice' p) + 1 ≤ ticksLeft cfg (slice p)) :
    frontWork cfg b l' slice' + 1 ≤ frontWork cfg b l slice := by
  have hmem : p ∈ (inFront b l).toFinset := List.mem_toFinset.mpr hp
  have hsub' := toFinset_inFront_subset hsub
  have hrest : ∑ q ∈ (inFront b l').toFinset.erase p, ticksLeft cfg (slice' q)
      ≤ ∑ q ∈ (inFront b l).toFinset.erase p, ticksLeft cfg (slice q) := by
    refine le_trans (le_of_eq ?_) (Finset.sum_le_sum_of_subset (Finset.erase_subset_erase p hsub'))
    refine Finset.sum_congr rfl fun q hq => ?_
    rw [Finset.mem_erase, List.mem_toFinset] at hq
    rw [hslice q hq.2 hq.1]
  rw [frontWork, frontWork, ← Finset.add_sum_erase _ _ hmem]
  by_cases hp' : p ∈ inFront b l'
  · rw [← Finset.add_sum_erase _ _ (List.mem_toFinset.mpr hp')]
    have hone := htick hp'
    omega
  · rw [Finset.erase_eq_of_notMem (mt List.mem_toFinset.mp hp')] at hrest
    have hpos := ticksLeft_pos cfg (slice p)
    omega

/-- Those in front are in the queue. -/
lemma inFront_subset (b : T) (l : List T) : inFront b l ⊆ l := by
  induction l with
  | nil => exact List.Subset.refl _
  | cons a l ih =>
      rw [inFront]
      split_ifs
      · exact List.nil_subset _
      · exact List.cons_subset_cons a ih

/-- Who is put at the end stands in front of nobody. -/
lemma notMem_inFront_requeued (hnodup : l.Nodup) (hb : b ∈ l) (hne : p ≠ b) :
    p ∉ inFront b (requeued l p false) := by
  have hbmem : b ∈ l.erase p := (List.mem_erase_of_ne hne.symm).mpr hb
  rw [requeued]
  split_ifs with hp
  · intro hmem
    rw [addTo, if_neg (by simp), inFront_append [p] _ hbmem] at hmem
    exact List.Nodup.not_mem_erase hnodup (inFront_subset b _ hmem)
  · exact fun hmem => hp (inFront_subset b _ hmem)

/-- **A tick of a task in front of `b` leaves one tick less in front of `b`.** -/
theorem SliceQueue.tick_frontWork {a : SliceQueue T} {quantum : T → ℕ} (hnodup : a.order.Nodup)
    (hb : b ∈ a.order) (hp : p ∈ inFront b a.order) (hne : p ≠ b)
    (hnext : a.nextSlice quantum p + 1 ≤ ticksLeft cfg (a.slice p)) :
    frontWork cfg b (a.tick quantum p).order (a.tick quantum p).slice + 1
      ≤ frontWork cfg b a.order a.slice := by
  rw [tick]
  by_cases hpos : 0 < a.nextSlice quantum p
  · rw [if_pos hpos]
    refine frontWork_lt (List.Subset.refl _) hp (fun q _ hq => Function.update_of_ne hq ..) ?_
    intro _
    change ticksLeft cfg (Function.update a.slice p (a.nextSlice quantum p) p) + 1 ≤ _
    rw [Function.update_self]
    conv_lhs => rw [ticksLeft, if_neg (by omega)]
    exact hnext
  · rw [if_neg hpos]
    refine frontWork_lt (notOvertaken_requeued hne a.order hb).2 hp
      (fun q _ hq => Function.update_of_ne hq ..) fun hmem => ?_
    exact absurd hmem (notMem_inFront_requeued hnodup hb hne)

/-- A tick of a task behind `b` leaves those in front alone. -/
lemma SliceQueue.tick_behind {a : SliceQueue T} {quantum : T → ℕ} (hb : b ∈ a.order)
    (hp : p ∉ inFront b a.order) (hne : p ≠ b) :
    frontWork cfg b (a.tick quantum p).order (a.tick quantum p).slice
      ≤ frontWork cfg b a.order a.slice := by
  rw [tick]
  by_cases hpos : 0 < a.nextSlice quantum p
  · rw [if_pos hpos]
    refine frontWork_mono (List.Subset.refl _) fun q hq => ?_
    exact Function.update_of_ne (by rintro rfl; exact hp hq) ..
  · rw [if_neg hpos]
    have hsub := (notOvertaken_requeued hne a.order hb).2
    refine frontWork_mono hsub fun q hq => ?_
    exact Function.update_of_ne (by rintro rfl; exact hp (hsub hq)) ..

end

/-! ## Ticks and runs -/

/-- The current task stands in front of `b`. -/
def RunsInFront (s : Sys T E) (b : T) : Prop :=
  ∃ wrr, WrrQueue s wrr ∧ s.core.curr ∈ inFront b wrr

/-- A run without an operation on `b`, and the number of its ticks in which a task in front of `b`
was running. -/
inductive FrontTicks (K : Kernel T E) (b : T) (s₀ : Sys T E) : Sys T E → ℕ → Prop where
  | init : FrontTicks K b s₀ s₀ 0
  | tick {s s' : Sys T E} {n : ℕ} : FrontTicks K b s₀ s n → RunsInFront s b →
      step K s .schedulerTick = .ok s' → FrontTicks K b s₀ s' (n + 1)
  | other {s s' : Sys T E} {n : ℕ} {op : Op T} : FrontTicks K b s₀ s n →
      (op = .schedulerTick → ¬RunsInFront s b) → Allowed s op → op.target ≠ some b →
      step K s op = .ok s' → FrontTicks K b s₀ s' n

section

variable {K : Kernel T E} {queued : E → SchedClass → Finset T} {s s' : Sys T E}
  {wrr wrr' : List T} {b : T} {n : ℕ}

/-- **A tick in the WRR class is a tick of the abstract queue.** -/
lemma Inv.tick_showsWrr (h : Inv K queued s wrr) (hpolicy : ∀ p ∈ wrr, (s.task p).policy = schedWrr)
    (hclass : currClass s = .wrr) (hcurr : s.core.curr ∈ wrr) :
    ∃ (a : SliceQueue T) (quantum : T → ℕ), a.order = wrr ∧ a.slice = slice s ∧
      (∀ p, quantum p = wrrTimeslice K.toConfig (s.task p).schedTaskGroup) ∧
      ShowsWrr K.toConfig { p | p ∈ wrr } quantum (schedulerTick K s)
        (a.tick quantum s.core.curr) := by
  rcases h.layout.sound with ⟨rt, hs, -⟩
  have hshows : ShowsWrr K.toConfig { p | p ∈ wrr }
      (fun p => wrrTimeslice K.toConfig (s.task p).schedTaskGroup) s
      ⟨wrr, s.core.curr, slice s, s.needResched⟩ :=
    ⟨⟨rt, hs⟩, fun _ => id, rfl, fun _ _ => rfl, rfl, h.wrrThrottled, hpolicy, fun _ _ => rfl⟩
  have hquiet : Quiet id s (updateRqClock K s) := quiet_updateRqClock K s
  have hclock := hshows.quiet (sameSlices_updateRqClock s) hquiet
  have htick : schedulerTick K s = taskTickWrr K.toConfig (updateRqClock K s) s.core.curr := by
    have hclass' : ((updateRqClock K s).task (updateRqClock K s).core.curr).schedClass = .wrr := by
      rw [Sys.task, hquiet.core]
      exact hclass
    rw [schedulerTick, classTaskTick, hclass', hquiet.core]
  refine ⟨⟨wrr, s.core.curr, slice s, s.needResched⟩,
    fun p => wrrTimeslice K.toConfig (s.task p).schedTaskGroup, rfl, rfl, fun _ => rfl, ?_⟩
  rw [htick]
  exact hclock.taskTickWrr hcurr

/-- **A tick leaves one tick less in front of `b`, if it is one of a task in front of `b`.** -/
lemma Inv.tick_frontWork (h : Inv K queued s wrr)
    (hpolicy : ∀ p ∈ wrr, (s.task p).policy = schedWrr)
    (hslice : ∀ p, slice s p ≤ wholeSlice K.toConfig) (hb : b ∈ wrr) (hcurr : s.core.curr ≠ b)
    (hwrr' : WrrQueue (schedulerTick K s) wrr') (hsub : inFront b wrr' ⊆ inFront b wrr) :
    frontWork K.toConfig b wrr' (slice (schedulerTick K s))
        + (if s.core.curr ∈ inFront b wrr then 1 else 0)
      ≤ frontWork K.toConfig b wrr (slice s) := by
  by_cases hclass : currClass s = .wrr
  · have hmem : s.core.curr ∈ wrr := by
      rw [h.mem_wrr]
      refine ⟨h.curr.resolve_left (h.curr_ne_idle_of_class ?_), hclass⟩
      rw [show (s.task s.core.curr).schedClass = .wrr from hclass]
      simp
    rcases h.tick_showsWrr hpolicy hclass hmem with
      ⟨a, quantum, rfl, hslices, hquantum, hshows⟩
    generalize ha' : a.tick quantum s.core.curr = a' at hshows
    obtain rfl := hshows.wrrQueue.unique hwrr'
    have hsame : frontWork K.toConfig b a'.order (slice (schedulerTick K s))
        = frontWork K.toConfig b a'.order a'.slice := by
      refine Finset.sum_congr rfl fun q hq => ?_
      have hq' := inFront_subset b _ (List.mem_toFinset.mp hq)
      rw [slice, hshows.slice q (hshows.members q hq')]
    rw [hsame, ← hslices, ← ha']
    split_ifs with hfront
    · refine SliceQueue.tick_frontWork h.layout.wrr_nodup hb hfront hcurr ?_
      rw [SliceQueue.nextSlice, hquantum, hslices]
      exact decTimeSlice_lt K.toConfig _ (hslice s.core.curr) _
    · rw [add_zero]
      exact SliceQueue.tick_behind hb hfront hcurr
  · have hbehind : s.core.curr ∉ inFront b wrr := fun hfront =>
      hclass ((h.mem_wrr _).mp (inFront_subset b _ hfront)).2
    rw [if_neg hbehind, add_zero, slice_schedulerTick_of_ne hclass]
    exact frontWork_mono hsub fun _ _ => rfl

/-- A task that waits goes on waiting, with nobody new in front of it, or is picked. -/
lemma Stepped.waits {op : Op T} (h : Stepped K queued op s s' wrr wrr') (hb : b ∈ wrr)
    (hcurr : s.core.curr ≠ b) (hop : op.target ≠ some b) :
    ∃ picks, s'.wrrPicks = s.wrrPicks ++ picks ∧
      (b ∈ picks ∨ b ∈ wrr' ∧ inFront b wrr' ⊆ inFront b wrr ∧ s'.core.curr ≠ b) := by
  rcases h.order b hcurr.symm hop hb with ⟨hmem, hsub⟩
  rcases eq_or_ne s'.core.curr b with rfl | hcurr'
  · exact ⟨_, (h.next.resolve_left hcurr.symm).resolve_left (not_not.mpr hmem), .inl (by simp)⟩
  · rcases h.picks with hsame | ⟨p, -, hpick⟩
    · exact ⟨[], by rw [hsame, List.append_nil], .inr ⟨hmem, hsub, hcurr'⟩⟩
    · exact ⟨[p], hpick, .inr ⟨hmem, hsub, hcurr'⟩⟩

/-- **What one operation leaves in front of `b`**: `n` is one for a tick of a task in front. -/
lemma Inv.step_frontWork (hK : Laws K queued) (h : Inv K queued s wrr)
    (hpolicy : ∀ p ∈ wrr, (s.task p).policy = schedWrr)
    (hslice : ∀ p, slice s p ≤ wholeSlice K.toConfig) {op : Op T} (hop : Allowed s op)
    (hstep : Sched.step K s op = .ok s') (hwrr' : WrrQueue s' wrr') (hb : b ∈ wrr)
    (hcurr : s.core.curr ≠ b) (hsub : inFront b wrr' ⊆ inFront b wrr)
    (hn : n = 0 ∨ n = 1 ∧ op = .schedulerTick ∧ s.core.curr ∈ inFront b wrr) :
    frontWork K.toConfig b wrr' (slice s') + n ≤ frontWork K.toConfig b wrr (slice s) := by
  by_cases htick : op = .schedulerTick
  · subst htick
    obtain rfl := Except.ok.inj hstep
    have hpaid := h.tick_frontWork hpolicy hslice hb hcurr hwrr' hsub
    rcases hn with rfl | ⟨rfl, -, hfront⟩
    · omega
    · rw [if_pos hfront] at hpaid
      exact hpaid
  · obtain rfl := hn.resolve_right fun hand => htick hand.2.1
    refine frontWork_mono hsub fun q hq => ?_
    rcases step_slice hK h hop hstep htick q with hsame | ⟨rfl, -⟩
    · exact hsame
    · -- a child is not in the queue
      have hon := ((h.mem_wrr q).mp (inFront_subset b wrr (hsub hq))).1
      exact absurd (h.core.listed q hon) hop.1

/-- `b` has been picked, or it waits and the ticks of those in front of it are paid for. -/
def Paid (cfg : Config) (b : T) (work : ℕ) (picks₀ : List T) (s : Sys T E) (wrr : List T)
    (n : ℕ) : Prop :=
  ∃ picks, s.wrrPicks = picks₀ ++ picks ∧
    (b ∈ picks ∨ b ∈ wrr ∧ s.core.curr ≠ b ∧ frontWork cfg b wrr (slice s) + n ≤ work)

lemma Paid.step {work m : ℕ} {picks₀ : List T} {op : Op T}
    (h : Paid K.toConfig b work picks₀ s wrr n) (hop : op.target ≠ some b)
    (hstepped : Stepped K queued op s s' wrr wrr')
    (hpaid : b ∈ wrr → s.core.curr ≠ b → inFront b wrr' ⊆ inFront b wrr →
      frontWork K.toConfig b wrr' (slice s') + m ≤ frontWork K.toConfig b wrr (slice s)) :
    Paid K.toConfig b work picks₀ s' wrr' (n + m) := by
  rcases h with ⟨picks, hpicks, hpicked | ⟨hmem, hcurr, hwork⟩⟩
  · rcases hstepped.picks with hsame | ⟨p, -, hpick⟩
    · exact ⟨picks, hsame.trans hpicks, .inl hpicked⟩
    · refine ⟨picks ++ [p], ?_, .inl (List.mem_append_left _ hpicked)⟩
      rw [hpick, hpicks, List.append_assoc]
  · rcases hstepped.waits hmem hcurr hop with ⟨picks', hpicks', hwaits⟩
    refine ⟨picks ++ picks', ?_, ?_⟩
    · rw [hpicks', hpicks, List.append_assoc]
    · rcases hwaits with hpicked | ⟨hmem', hsub, hcurr'⟩
      · exact .inl (List.mem_append_right _ hpicked)
      · have hstep := hpaid hmem hcurr hsub
        exact .inr ⟨hmem', hcurr', by omega⟩

/-- **The run lemma.** -/
lemma FrontTicks.run (hK : Laws K queued) {boot : Boot T} {s₀ : Sys T E} {work : ℕ}
    (h₀ : Reachable K boot s₀) (hinv₀ : Inv K queued s₀ wrr)
    (hpaid₀ : Paid K.toConfig b work s₀.wrrPicks s₀ wrr 0) (hrun : FrontTicks K b s₀ s n) :
    Reachable K boot s ∧
      ∃ wrr', Inv K queued s wrr' ∧ Paid K.toConfig b work s₀.wrrPicks s wrr' n := by
  have hnext : ∀ {s s' : Sys T E} {op : Op T} {n m : ℕ}, Allowed s op → op.target ≠ some b →
      step K s op = .ok s' → (m = 0 ∨ m = 1 ∧ op = .schedulerTick ∧ RunsInFront s b) →
      (Reachable K boot s ∧
        ∃ wrr', Inv K queued s wrr' ∧ Paid K.toConfig b work s₀.wrrPicks s wrr' n) →
      Reachable K boot s' ∧
        ∃ wrr', Inv K queued s' wrr' ∧ Paid K.toConfig b work s₀.wrrPicks s' wrr' (n + m) := by
    rintro s s' op n m hop htarget hstep hm ⟨hreach, wrr, hinv, hpaid⟩
    rcases hinv.step hK hop with ⟨s₁, wrr', hok, hstepped⟩
    rw [hok] at hstep
    obtain rfl := Except.ok.inj hstep
    refine ⟨Run.step hreach hop hok, wrr', hstepped.inv, ?_⟩
    have hpolicy : ∀ p ∈ wrr, (s.task p).policy = schedWrr := fun p hp =>
      hreach.policy_of_wrr hK ((hinv.mem_wrr p).mp hp).2
    have hm' : m = 0 ∨ m = 1 ∧ op = .schedulerTick ∧ s.core.curr ∈ inFront b wrr := by
      refine hm.imp_right ?_
      rintro ⟨hone, htick, l, hl, hfront⟩
      exact ⟨hone, htick, hl.unique hinv.layout.wrrQueue ▸ hfront⟩
    exact hpaid.step htarget hstepped fun hmem hcurr hsub =>
      hinv.step_frontWork hK hpolicy (hreach.slice_le hK) hop hok hstepped.inv.layout.wrrQueue
        hmem hcurr hsub hm'
  induction hrun with
  | init => exact ⟨h₀, wrr, hinv₀, hpaid₀⟩
  | @tick s _ _ _ hfront hstep ih =>
      have hallowed : Allowed s .schedulerTick := trivial
      have htarget : Op.target (.schedulerTick : Op T) ≠ some b := by simp [Op.target]
      exact hnext hallowed htarget hstep (.inr ⟨rfl, rfl, hfront⟩) ih
  | other _ _ hop htarget hstep ih => exact hnext hop htarget hstep (.inl rfl) ih

/-- **Waiting in the WRR queue is bounded.**  Until `b` is picked, those in front of it have no more
ticks than are left of their slices, whatever is done as long as `b` is not taken off the queue; and
that is no more than a whole slice for each of them. -/
theorem front_wait_bounded (hK : Laws K queued) {boot : Boot T} (h : Reachable K boot s)
    (hwrr : WrrQueue s wrr) (hb : b ∈ wrr) (hcurr : s.core.curr ≠ b)
    (hrun : FrontTicks K b s s' n) :
    (∃ picks, s'.wrrPicks = s.wrrPicks ++ picks ∧
        (b ∈ picks ∨ n ≤ frontWork K.toConfig b wrr (slice s))) ∧
      frontWork K.toConfig b wrr (slice s) ≤ (inFront b wrr).length * wholeSlice K.toConfig := by
  rcases h.inv hK with ⟨wrr', hinv⟩
  obtain rfl := hinv.layout.wrrQueue.unique hwrr
  constructor
  · have hpaid₀ : Paid K.toConfig b (frontWork K.toConfig b wrr' (slice s)) s.wrrPicks s wrr' 0 :=
      ⟨[], (List.append_nil _).symm, .inr ⟨hb, hcurr, le_rfl⟩⟩
    rcases hrun.run hK h hinv hpaid₀ with ⟨-, wrr, -, ⟨picks, hpicks, hwaits⟩⟩
    refine ⟨picks, hpicks, hwaits.imp_right fun hwork => ?_⟩
    omega
  · rw [frontWork]
    calc ∑ q ∈ (inFront b wrr').toFinset, ticksLeft K.toConfig (slice s q)
        ≤ (inFront b wrr').toFinset.card * wholeSlice K.toConfig :=
          Finset.sum_le_card_nsmul _ _ _ fun q _ => ticksLeft_le (h.slice_le hK q)
      _ ≤ (inFront b wrr').length * wholeSlice K.toConfig :=
          Nat.mul_le_mul_right _ (List.toFinset_card_le _)

/-- Of three WRR tasks the first runs for a tick, and the third is kept waiting for it by no more
than its slice and that of the second. -/
theorem front_wait_bounded_three :
    ∃ s s', runOps (fifoKernel smallConfig) Allowed (init (fifoKernel smallConfig) smallBoot)
        [.fork 2, .wakeUpNewTask 2, .schedule ⟨false, false, none⟩, .fork 3, .wakeUpNewTask 3,
          .fork 4, .wakeUpNewTask 4, .setscheduler 2 schedWrr 0 false,
          .setscheduler 3 schedWrr 0 false, .setscheduler 4 schedWrr 0 false] = some s ∧
      WrrQueue s [2, 3, 4] ∧ s.core.curr = 2 ∧
      step (fifoKernel smallConfig) s .schedulerTick = .ok s' ∧
      (∃ picks, s'.wrrPicks = s.wrrPicks ++ picks ∧
        (4 ∈ picks ∨ 1 ≤ frontWork smallConfig 4 [2, 3, 4] (slice s))) ∧
      frontWork smallConfig 4 [2, 3, 4] (slice s)
        ≤ (inFront 4 [2, 3, 4]).length * wholeSlice smallConfig := by
  have hrun : ∃ s, runOps (fifoKernel smallConfig) Allowed
        (init (fifoKernel smallConfig) smallBoot)
        [.fork 2, .wakeUpNewTask 2, .schedule ⟨false, false, none⟩, .fork 3, .wakeUpNewTask 3,
          .fork 4, .wakeUpNewTask 4, .setscheduler 2 schedWrr 0 false,
          .setscheduler 3 schedWrr 0 false, .setscheduler 4 schedWrr 0 false] = some s ∧
      WrrQueue s [2, 3, 4] ∧ s.core.curr = 2 :=
    exists_of_any (by decide +kernel)
  rcases hrun with ⟨s, hs, hwrr, hcurr⟩
  refine ⟨s, schedulerTick (fifoKernel smallConfig) s, hs, hwrr, hcurr, rfl, ?_⟩
  have hreach : Reachable (fifoKernel smallConfig) smallBoot s := Run.runOps _ .init hs
  have hfront : RunsInFront s 4 := ⟨[2, 3, 4], hwrr, by rw [hcurr]; decide⟩
  exact front_wait_bounded (fifoKernel_laws smallConfig) hreach hwrr (by decide)
    (by rw [hcurr]; decide) (FrontTicks.init.tick hfront rfl)

end

end Sched
