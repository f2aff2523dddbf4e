import OsPrj.Sched.Charging

/-!
# CPU time

What follows, over whole runs, from what each operation does to the execution times.

* `Since` — a task has been current in the WRR class since a moment with a given sum and clock.
* `wrr_charges_once` — **it is charged for every nanosecond since, exactly once**.
-/

namespace Sched

variable {T E : Type} [DecidableEq T] {K : Kernel T E} {s s' b : Sys T E} {called : Prop} {p : T}

def Op.isPick : Op T → Bool
  | .pickNextTask => true
  | _ => false

/-- The operations as they are called: nobody but `__schedule` calls `pick_next_task`. -/
def Called (s : Sys T E) (op : Op T) : Prop := Allowed s op ∧ op.isPick = false

instance (s : Sys T E) (op : Op T) : Decidable (Called s op) := inferInstanceAs (Decidable (_ ∧ _))

omit [DecidableEq T] in
lemma Called.ne_pick {op : Op T} (h : Called s op) : op ≠ .pickNextTask := by
  rintro rfl
  exact Bool.noConfusion h.2

/-! ## Time in the WRR class -/

/-- The current task is `p`, and it is a WRR task. -/
def CurrentWrr (s : Sys T E) (p : T) : Prop := s.core.curr = p ∧ (s.task p).schedClass = .wrr

instance (s : Sys T E) (p : T) : Decidable (CurrentWrr s p) := inferInstanceAs (Decidable (_ ∧ _))

/-- The sum of a task at a moment, as if time had started then at `0`. -/
def leadNow (b : Sys T E) (p : T) : BitVec 64 := (b.acct.se p).sumExecRuntime - b.acct.clockTask

lemma Accounted.currClass_eq (h : Accounted K called s s') :
    Sched.currClass s' = Sched.currClass s := by
  rw [Sched.currClass, h.curr, h.currClass]

lemma Accounted.currentWrr_iff (h : Accounted K called s s') (p : T) :
    CurrentWrr s' p ↔ CurrentWrr s p := by
  have hclass : s.core.curr = p → (s'.task p).schedClass = (s.task p).schedClass := by
    rintro rfl
    exact h.currClass
  rw [CurrentWrr, CurrentWrr, h.curr]
  exact and_congr_right fun hcurr => by rw [hclass hcurr]

lemma Accounted.lead_eq (h : Accounted K called s s') (ht : Timed K s) (hp : CurrentWrr s p) :
    Sched.lead s' p = Sched.lead s p := by
  rcases hp with ⟨rfl, hwrr⟩
  exact h.lead ht hwrr

omit [DecidableEq T] in
lemma UpToDate.leadNow_eq (h : UpToDate b) (hp : CurrentWrr b p) : leadNow b p = lead b p := by
  rcases hp with ⟨rfl, hwrr⟩
  rw [leadNow, lead, h hwrr]

/-- An operation keeps the clock, and no time gets lost: not while a WRR task is current, and not at
the moment it stops being so or becomes so. -/
structure Conserves (K : Kernel T E) (s b s' : Sys T E) : Prop where
  timed : Timed K s'
  later : s.acct.clockTask.toNat ≤ s'.acct.clockTask.toNat
  goesOn : ∀ p, CurrentWrr s p → CurrentWrr s' p → lead s' p = lead s p
  stops : ∀ p, CurrentWrr s p → ¬CurrentWrr s' p →
    leadNow b p = lead s p ∧ s.acct.clockTask.toNat ≤ b.acct.clockTask.toNat
  starts : ∀ p, ¬CurrentWrr s p → CurrentWrr s' p →
    lead s' p = leadNow b p ∧ b.acct.clockTask.toNat ≤ s'.acct.clockTask.toNat

theorem Accounts.conserves (h : Accounts K called s b s') (ht : Timed K s) :
    Conserves K s b s' := by
  cases h with
  | stays h =>
      refine ⟨h.timed ht, h.later ht, fun p hp _ => h.lead_eq ht hp, fun p hp hp' => ?_,
        fun p hp hp' => ?_⟩
      · exact absurd ((h.currentWrr_iff p).mpr hp) hp'
      · exact absurd ((h.currentWrr_iff p).mp hp') hp
  | @changes _ m _ hb hup _ hm hs' =>
      have htb := hb.timed ht
      have htm := hm.timed htb
      have hlater := hb.later ht
      have hlater' := (hm.later htb).trans (hs'.later htm)
      have hstops : ∀ p, CurrentWrr s p → leadNow b p = lead s p := fun p hp =>
        (hup.leadNow_eq ((hb.currentWrr_iff p).mpr hp)).trans (hb.lead_eq ht hp)
      have hstarts : ∀ p, CurrentWrr s' p → lead s' p = leadNow b p := by
        intro p hp
        have hpm := (hs'.currentWrr_iff p).mp hp
        rw [hs'.lead_eq htm hpm]
        rcases hpm with ⟨rfl, hwrr⟩
        rw [hm.wrr hwrr, leadNow, hm.curr]
      exact ⟨hs'.timed htm, hlater.trans hlater',
        fun p hp hp' => (hstarts p hp').trans (hstops p hp),
        fun p hp _ => ⟨hstops p hp, hlater⟩, fun p _ hp' => ⟨hstarts p hp', hlater'⟩⟩
  | @switches s₂ next h hup hnext =>
      have ht₂ := h.timed ht
      have hstops : ∀ p, CurrentWrr s p → leadNow (switchTo s₂ s.core.curr next) p = lead s p :=
        fun p hp => (hup.leadNow_eq ((h.currentWrr_iff p).mpr hp)).trans (h.lead_eq ht hp)
      have hstarts : ∀ p, CurrentWrr (switchTo s₂ s.core.curr next) p →
          lead (switchTo s₂ s.core.curr next) p = leadNow (switchTo s₂ s.core.curr next) p := by
        rintro p ⟨hcurr, hwrr⟩
        obtain rfl : next = p := hcurr
        show (s₂.acct.se next).sumExecRuntime - (s₂.acct.se next).execStart = _
        rw [hnext hwrr]
        rfl
      refine ⟨⟨ht₂.steady, ht₂.clock, ht₂.reading, fun hwrr => ?_⟩, h.later ht,
        fun p hp hp' => (hstarts p hp').trans (hstops p hp),
        fun p hp _ => ⟨hstops p hp, h.later ht⟩, fun p _ hp' => ⟨hstarts p hp', le_rfl⟩⟩
      show (s₂.acct.se next).execStart.toNat ≤ s₂.acct.clockTask.toNat
      rw [hnext hwrr]

/-- In any case it charges the current task only, and its thread group with it unless it is one of
WRR. -/
theorem Accounts.charged (h : Accounts K called s b s') :
    ∃ shared alone, Charged called s s' shared alone ∧ Threads s s' := by
  cases h with
  | stays h =>
      rcases h.charged with ⟨d, w, hcharged⟩
      exact ⟨d, w, hcharged, h.threads⟩
  | @changes _ m _ hb hup hidle hm hs' =>
      rcases hb.charged with ⟨d, w, hcharged⟩
      rcases hm.charged fun h => hidle (hb.currClass_eq.symm.trans h) with ⟨d', hcharged'⟩
      rcases hs'.charged with ⟨d'', w'', hcharged''⟩
      have hbm := hcharged.trans hcharged' hb.curr hb.threads (fun _ => hidle)
        fun h => absurd rfl h
      have hthreads := hb.threads.trans hm.threads hb.curr hcharged'
      have hcurr := hm.curr.trans hb.curr
      exact ⟨_, _, hbm.trans hcharged'' hcurr hthreads (fun _ => hidle)
        fun hw => False.elim (hcharged''.wrr hw).1, hthreads.trans hs'.threads hcurr hcharged''⟩
  | @switches s₂ next h =>
      rcases h.charged with ⟨d, w, hcharged⟩
      exact ⟨d, w, ⟨hcharged.group, hcharged.wrr, hcharged.sum, hcharged.ledger⟩,
        h.threads.tasklist, h.threads.fresh, h.threads.tgid⟩

/-! ## Runs -/

section

variable {queued : E → SchedClass → Finset T} {boot : Boot T}

lemma reachable_of_called (h : Run K (init K boot) Called s) : Reachable K boot s :=
  h.mono fun _ _ hop => hop.1

lemma run_accounts (hhooks : ChargingHooks K) (hlaws : Laws K queued)
    (h : Run K (init K boot) Called s) {op : Op T} (hop : Called s op)
    (hstep : step K s op = .ok s') :
    Accounts K (ChargesWrr s op) s (handover K s op s') s' := by
  rcases (reachable_of_called h).inv hlaws with ⟨wrr, hinv⟩
  exact step_accounts hhooks hlaws hinv hop.1 hop.ne_pick hstep

lemma timed_init (hclock : SteadyClock K.toConfig) (boot : Boot T) : Timed K (init K boot) where
  steady := hclock
  clock := rfl
  reading := Nat.zero_le _
  execStart := fun _ => le_rfl

/-- The clock is kept in every state. -/
theorem Run.timed (hclock : SteadyClock K.toConfig) (hhooks : ChargingHooks K)
    (hlaws : Laws K queued) (h : Run K (Sched.init K boot) Called s) : Timed K s := by
  induction h with
  | init => exact timed_init hclock boot
  | step hrun hop hstep ih =>
      exact ((run_accounts hhooks hlaws hrun hop hstep).conserves ih).timed

/-- The task `p` has been current in the WRR class since a moment at which its
`sum_exec_runtime` was `sum` and `rq->clock_task` was `clock`. -/
inductive Since (K : Kernel T E) (boot : Boot T) : Sys T E → T → BitVec 64 → BitVec 64 → Prop where
  | starts {s s' : Sys T E} {op : Op T} {p : T} : Run K (init K boot) Called s → Called s op →
      step K s op = .ok s' → ¬CurrentWrr s p → CurrentWrr s' p →
      Since K boot s' p ((handover K s op s').acct.se p).sumExecRuntime
        (handover K s op s').acct.clockTask
  | goesOn {s s' : Sys T E} {op : Op T} {p : T} {sum clock : BitVec 64} :
      Since K boot s p sum clock → Called s op → step K s op = .ok s' → CurrentWrr s' p →
      Since K boot s' p sum clock

lemma Since.run {sum clock : BitVec 64} (h : Since K boot s p sum clock) :
    Run K (init K boot) Called s ∧ CurrentWrr s p := by
  induction h with
  | starts hrun hop hstep _ hp' => exact ⟨hrun.step hop hstep, hp'⟩
  | goesOn _ hop hstep hp' ih => exact ⟨ih.1.step hop hstep, hp'⟩

/-- The invariant of a task's time in the WRR class. -/
theorem Since.lead_eq (hclock : SteadyClock K.toConfig) (hhooks : ChargingHooks K)
    (hlaws : Laws K queued) {sum clock : BitVec 64} (h : Since K boot s p sum clock) :
    lead s p = sum - clock ∧ clock.toNat ≤ s.acct.clockTask.toNat := by
  induction h with
  | starts hrun hop hstep hp hp' =>
      have hconserves := (run_accounts hhooks hlaws hrun hop hstep).conserves
        (hrun.timed hclock hhooks hlaws)
      exact hconserves.starts _ hp hp'
  | goesOn hsince hop hstep hp' ih =>
      rcases hsince.run with ⟨hrun, hp⟩
      have hconserves := (run_accounts hhooks hlaws hrun hop hstep).conserves
        (hrun.timed hclock hhooks hlaws)
      exact ⟨(hconserves.goesOn _ hp hp').trans ih.1, ih.2.trans hconserves.later⟩

/-- Every current WRR task has become one at some moment. -/
theorem Run.since (h : Run K (Sched.init K boot) Called s) (hp : CurrentWrr s p) :
    ∃ sum clock, Since K boot s p sum clock := by
  induction h with
  | init =>
      rcases hp with ⟨rfl, hwrr⟩
      have hidle : ((Sched.init K boot).task boot.idle).schedClass = .idle := by
        simp [Sys.task, Sched.init]
      exact SchedClass.noConfusion (hidle.symm.trans hwrr)
  | @step s s' op hrun hop hstep ih =>
      by_cases hold : CurrentWrr s p
      · rcases ih hold with ⟨sum, clock, hsince⟩
        exact ⟨sum, clock, hsince.goesOn hop hstep hp⟩
      · exact ⟨_, _, .starts hrun hop hstep hold hp⟩

/-- **A WRR task is charged for every nanosecond exactly once**: while it is current, its sum and
the time since its stamp make up the sum it started with and the time since then; when it stops, its
sum has grown by just that time; and no task but the current one is charged. -/
theorem wrr_charges_once (hclock : SteadyClock K.toConfig) (hhooks : ChargingHooks K)
    (hlaws : Laws K queued) {sum clock : BitVec 64} (h : Since K boot s p sum clock) :
    ((s.acct.se p).sumExecRuntime + (s.acct.clockTask - (s.acct.se p).execStart)
        = sum + (s.acct.clockTask - clock) ∧
      clock.toNat ≤ s.acct.clockTask.toNat) ∧
    (∀ op s', Called s op → step K s op = .ok s' → ¬CurrentWrr s' p →
      ((handover K s op s').acct.se p).sumExecRuntime
        = sum + ((handover K s op s').acct.clockTask - clock) ∧
      clock.toNat ≤ (handover K s op s').acct.clockTask.toNat) ∧
    (∀ op s', Called s op → step K s op = .ok s' → ∀ q ∈ s.core.tasklist, q ≠ p →
      (s'.acct.se q).sumExecRuntime = (s.acct.se q).sumExecRuntime) ∧
    ∀ m : Sys T E, ∀ q ≠ m.core.curr, (updateCurrWrr m).acct.se q = m.acct.se q := by
  rcases h.lead_eq hclock hhooks hlaws with ⟨hlead, hlater⟩
  rcases h.run with ⟨hrun, hp⟩
  refine ⟨⟨?_, hlater⟩, fun op s' hop hstep hp' => ?_, fun op s' hop hstep q hq hne => ?_,
    fun m q hq => updateCurrWrr_others m hq⟩
  · calc (s.acct.se p).sumExecRuntime + (s.acct.clockTask - (s.acct.se p).execStart)
        = lead s p + s.acct.clockTask := by rw [lead]; abel
      _ = sum - clock + s.acct.clockTask := by rw [hlead]
      _ = sum + (s.acct.clockTask - clock) := by abel
  · have hconserves := (run_accounts hhooks hlaws hrun hop hstep).conserves
      (hrun.timed hclock hhooks hlaws)
    rcases hconserves.stops p hp hp' with ⟨hnow, hlater'⟩
    refine ⟨?_, hlater.trans hlater'⟩
    calc ((handover K s op s').acct.se p).sumExecRuntime
        = leadNow (handover K s op s') p + (handover K s op s').acct.clockTask := by
          rw [leadNow]; abel
      _ = sum - clock + (handover K s op s').acct.clockTask := by rw [hnow, hlead]
      _ = sum + ((handover K s op s').acct.clockTask - clock) := by abel
  · rcases (run_accounts hhooks hlaws hrun hop hstep).charged with ⟨d, w, hcharged, -⟩
    rw [hcharged.sum q hq, if_neg (hp.1 ▸ hne), add_zero]

end

lemma ok_of_toOption {ε α : Type} {x : Except ε α} {a : α}
    (h : x.toOption = some a) : x = .ok a := by
  cases x with
  | error e => exact absurd h (by simp [Except.toOption])
  | ok b => exact congrArg Except.ok (Option.some.inj h)

/-- The small machine with a clock that stops in the end. -/
def steadyConfig : Config :=
  { smallConfig with schedClock := fun n => BitVec.ofNat 64 (min n 1000) }

lemma steadyConfig_clock : SteadyClock steadyConfig where
  mono := by
    intro n
    simp only [steadyConfig, BitVec.toNat_ofNat]
    omega
  bounded := by
    intro n
    simp only [steadyConfig, BitVec.toNat_ofNat]
    omega

/-- A hook that leaves the accounting alone. -/
lemma hookCharges_of_acct {r : HookResult T E} (h : r.acct = s.acct) : HookCharges K s r where
  clock := .inl (by rw [h])
  wrr := fun _ _ => by rw [h]
  charge := ⟨0, fun h => absurd rfl h, by simp [h], by simp [h]⟩

lemma fifoKernel_charging (cfg : Config) :
    ChargingHooks (fifoKernel cfg : Kernel T (SchedClass → List T)) where
  enqueue := fun _ _ _ _ => hookCharges_of_acct rfl
  dequeue := fun _ _ _ _ => hookCharges_of_acct rfl
  yield := fun _ _ => hookCharges_of_acct rfl
  checkPreempt := fun _ _ _ => hookCharges_of_acct rfl
  pick := fun _ _ => hookCharges_of_acct rfl
  pickClock := fun _ _ => rfl
  putPrev := fun _ _ _ => hookCharges_of_acct rfl
  setCurr := fun _ _ => hookCharges_of_acct rfl
  taskTick := fun _ _ _ => hookCharges_of_acct rfl
  taskFork := fun _ _ _ => hookCharges_of_acct rfl
  switchedFrom := fun _ _ _ => hookCharges_of_acct rfl
  switchedTo := fun _ _ _ => hookCharges_of_acct rfl
  prioChanged := fun _ _ _ _ => hookCharges_of_acct rfl
  taskMoveGroup := fun _ _ _ _ => hookCharges_of_acct rfl

/-- The current task becomes one of WRR, and the tick comes. -/
theorem wrr_charges_once_tick :
    ∃ s sum clock, Since (fifoKernel steadyConfig) smallBoot s 2 sum clock ∧
      sum < (s.acct.se 2).sumExecRuntime ∧
      (s.acct.se 2).sumExecRuntime + (s.acct.clockTask - (s.acct.se 2).execStart)
        = sum + (s.acct.clockTask - clock) := by
  have hrun : ∃ s, runOps (fifoKernel steadyConfig) Called
      (init (fifoKernel steadyConfig) smallBoot)
      [.fork 2, .wakeUpNewTask 2, .schedule ⟨false, false, none⟩] = some s ∧
        ¬CurrentWrr s 2 ∧ Called s (.setscheduler 2 schedWrr 0 false) ∧
        (step (fifoKernel steadyConfig) s (.setscheduler 2 schedWrr 0 false)).toOption.any
          (fun s' => CurrentWrr s' 2 ∧
          (step (fifoKernel steadyConfig) s' .schedulerTick).toOption.any (fun s'' =>
            CurrentWrr s'' 2 ∧
            ((handover (fifoKernel steadyConfig) s (.setscheduler 2 schedWrr 0 false) s').acct.se
              2).sumExecRuntime < (s''.acct.se 2).sumExecRuntime) = true) = true :=
    exists_of_any (by decide)
  rcases hrun with ⟨s, hs, hne, hop, hchanged⟩
  rcases exists_of_any hchanged with ⟨s', hs', hp', hticked⟩
  rcases exists_of_any hticked with ⟨s'', hs'', hp'', hlt⟩
  have hsince : Since (fifoKernel steadyConfig) smallBoot s' 2 _ _ :=
    .starts (Run.runOps _ .init hs) hop (ok_of_toOption hs') hne hp'
  have htick : Called s' .schedulerTick := ⟨trivial, rfl⟩
  have hsince' := hsince.goesOn htick (ok_of_toOption hs'') hp''
  exact ⟨s'', _, _, hsince', hlt, (wrr_charges_once steadyConfig_clock
    (fifoKernel_charging steadyConfig) (fifoKernel_laws steadyConfig) hsince').1.1⟩

end Sched
