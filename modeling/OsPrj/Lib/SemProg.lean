import Mathlib.Algebra.BigOperators.Group.Finset.Piecewise
import Mathlib.Algebra.Order.BigOperators.Group.Finset
import Mathlib.Data.Fintype.Basic
import Mathlib.Tactic.Ring

/-!
# Semaphore programs

Threads that run straight-line code over shared counting semaphores, once or in an endless loop.
A thread moves by executing the instruction at its program counter; `sem_wait` on a semaphore at
`0` does not move.  An interleaving is a list of thread names.

* `done` — how often a thread has executed an instruction, counting the rounds of its loop.
* `conservation` — **value plus waits is initial value plus posts**, in every reachable state.
* `Code.Leads` — a decidable property of the text of a thread that orders two `done` counts.
* `mutex_exclusive`, `not_blocked_on_mutex` — mutual exclusion, and deadlock freedom of the
  binary semaphores that are acquired along a rank.
-/

namespace SemProg

/-- One atomic statement. -/
inductive Instr (S A : Type) where
  | wait (s : S)
  | post (s : S)
  | act (a : A)
  deriving DecidableEq

/-- The text of a thread function; `loops` says that the body stands in a `while(1)`. -/
structure Code (S A : Type) where
  body : List (Instr S A)
  loops : Bool

/-- A state: semaphore values, program counters, finished rounds and the rest of the memory. -/
structure State (I S G : Type) where
  sem : S → ℕ
  pc : I → ℕ
  laps : I → ℕ
  mem : G

section Semantics

variable {I S A G : Type} [DecidableEq I] [DecidableEq S]
variable (code : I → Code S A) (effect : I → A → G → G)

/-- The program counter after the instruction of thread `i` at its counter. -/
def advance (st : State I S G) (i : I) : State I S G :=
  if (code i).loops ∧ st.pc i + 1 = (code i).body.length then
    { st with pc := Function.update st.pc i 0, laps := Function.update st.laps i (st.laps i + 1) }
  else
    { st with pc := Function.update st.pc i (st.pc i + 1) }

/-- One step of thread `i`; `none` when it has ended or is blocked. -/
def step (st : State I S G) (i : I) : Option (State I S G) :=
  match (code i).body[st.pc i]? with
  | none => none
  | some (.wait s) =>
      if 0 < st.sem s then
        some (advance code { st with sem := Function.update st.sem s (st.sem s - 1) } i)
      else none
  | some (.post s) =>
      some (advance code { st with sem := Function.update st.sem s (st.sem s + 1) } i)
  | some (.act a) => some (advance code { st with mem := effect i a st.mem } i)

/-- Run an interleaving. -/
def exec (st : State I S G) : List I → Option (State I S G)
  | [] => some st
  | i :: is => (step code effect st i).bind fun st' => exec st' is

/-- Nothing has run yet. -/
def start (sem : S → ℕ) (mem : G) : State I S G :=
  { sem, pc := fun _ => 0, laps := fun _ => 0, mem }

/-- Some interleaving leads from the start to `st`. -/
def Reachable (sem : S → ℕ) (mem : G) (st : State I S G) : Prop :=
  ∃ is, exec code effect (start sem mem) is = some st

/-- No thread can take a step. -/
def Stuck (st : State I S G) : Prop := ∀ i, step code effect st i = none

variable {code effect}

/-- **Run rule.**  What holds at the start and is kept by every step holds after every
interleaving. -/
theorem exec_invariant {P : State I S G → Prop}
    (hstep : ∀ st st' i, P st → step code effect st i = some st' → P st')
    {st st' : State I S G} {is : List I} (h₀ : P st) (hexec : exec code effect st is = some st') :
    P st' := by
  induction is generalizing st with
  | nil =>
      cases hexec
      exact h₀
  | cons i is ih =>
      obtain ⟨st₁, hst₁, hrest⟩ := Option.bind_eq_some_iff.mp hexec
      exact ih (hstep st st₁ i h₀ hst₁) hrest

lemma exec_append (st : State I S G) (is js : List I) :
    exec code effect st (is ++ js)
      = (exec code effect st is).bind fun st' => exec code effect st' js := by
  induction is generalizing st with
  | nil => rfl
  | cons i is ih =>
      simp only [List.cons_append, exec, Option.bind_assoc]
      congr 1
      funext st'
      exact ih st'

theorem Reachable.step {sem : S → ℕ} {mem : G} {st st' : State I S G} {i : I}
    (hr : Reachable code effect sem mem st) (hst : SemProg.step code effect st i = some st') :
    Reachable code effect sem mem st' := by
  obtain ⟨is, his⟩ := hr
  refine ⟨is ++ [i], ?_⟩
  rw [exec_append, his]
  simp [exec, hst]

/-- The run rule for reachable states, with reachability of the source state at hand. -/
theorem Reachable.induct {sem : S → ℕ} {mem : G} {P : State I S G → Prop}
    (h₀ : P (start sem mem))
    (hstep : ∀ st st' i, Reachable code effect sem mem st → P st →
      SemProg.step code effect st i = some st' → P st')
    {st : State I S G} (hr : Reachable code effect sem mem st) : P st := by
  obtain ⟨is, his⟩ := hr
  suffices hgen : Reachable code effect sem mem st ∧ P st from hgen.2
  refine exec_invariant (P := fun st => Reachable code effect sem mem st ∧ P st) ?_
    ⟨⟨[], rfl⟩, h₀⟩ his
  rintro st st' i ⟨hr, hP⟩ hst
  exact ⟨hr.step hst, hstep st st' i hr hP hst⟩

end Semantics

/-! ## What a step does -/

section Step

variable {I S A G : Type} [DecidableEq I]
variable {code : I → Code S A} {effect : I → A → G → G} {st st' : State I S G} {i : I}

@[simp] lemma advance_sem : (advance code st i).sem = st.sem := by
  unfold advance; split <;> rfl

@[simp] lemma advance_mem : (advance code st i).mem = st.mem := by
  unfold advance; split <;> rfl

variable [DecidableEq S]

/-- The effect of an instruction on the semaphores. -/
def Instr.sem (x : Instr S A) (v : S → ℕ) : S → ℕ :=
  match x with
  | .wait s => Function.update v s (v s - 1)
  | .post s => Function.update v s (v s + 1)
  | .act _ => v

/-- The effect of an instruction on the rest of the memory. -/
def Instr.mem (x : Instr S A) (effect : A → G → G) (m : G) : G :=
  match x with
  | .act a => effect a m
  | _ => m

/-- **Inversion.**  A step executes the instruction at the counter: a wait finds its semaphore
positive, the memory changes by the instruction and the counter advances. -/
theorem step_cases (h : step code effect st i = some st') :
    ∃ x, (code i).body[st.pc i]? = some x ∧ (∀ s, x = .wait s → 0 < st.sem s) ∧
      st' = advance code { st with sem := x.sem st.sem, mem := x.mem (effect i) st.mem } i := by
  unfold step at h
  split at h
  · cases h
  · next s hx =>
      split at h
      · next hpos =>
          refine ⟨_, hx, fun s' hs => ?_, (Option.some.inj h).symm⟩
          cases hs
          exact hpos
      · cases h
  · next s hx => exact ⟨_, hx, fun _ hs => (by cases hs), (Option.some.inj h).symm⟩
  · next a hx => exact ⟨_, hx, fun _ hs => (by cases hs), (Option.some.inj h).symm⟩

/-- A thread that does not move has ended or waits on a semaphore at `0`. -/
theorem step_eq_none (h : step code effect st i = none) :
    (code i).body.length ≤ st.pc i ∨
      ∃ s, (code i).body[st.pc i]? = some (.wait s) ∧ st.sem s = 0 := by
  unfold step at h
  split at h
  · next hx => exact Or.inl (List.getElem?_eq_none_iff.mp hx)
  · next s hx =>
      split at h
      · cases h
      · next hpos => exact Or.inr ⟨s, hx, by omega⟩
  · cases h
  · cases h

/-- The position of a thread: `pc` inside the body, or at its end when the body is not a loop. -/
def InBody (code : I → Code S A) (st : State I S G) : Prop :=
  ∀ i, st.pc i ≤ (code i).body.length ∧
    ((code i).loops = true → (code i).body ≠ [] → st.pc i < (code i).body.length)

theorem InBody.step (hb : InBody code st) (h : step code effect st i = some st') :
    InBody code st' := by
  obtain ⟨x, hx, -, rfl⟩ := step_cases h
  obtain ⟨hlt, -⟩ := List.getElem?_eq_some_iff.mp hx
  intro j
  obtain ⟨hj, hloop⟩ := hb j
  unfold advance
  split
  · by_cases hji : j = i
    · subst hji
      simp only [Function.update_self]
      omega
    · simp only [Function.update_of_ne hji]
      exact ⟨hj, hloop⟩
  · next hno =>
      by_cases hji : j = i
      · subst hji
        simp only [Function.update_self]
        refine ⟨by omega, fun hl _ => ?_⟩
        have hne : st.pc j + 1 ≠ (code j).body.length := fun he => hno ⟨hl, he⟩
        omega
      · simp only [Function.update_of_ne hji]
        exact ⟨hj, hloop⟩

theorem Reachable.inBody {sem : S → ℕ} {mem : G} (hr : Reachable code effect sem mem st) :
    InBody code st := by
  refine hr.induct (P := InBody code) (fun i => ?_) fun st st' i _ hP hst => hP.step hst
  refine ⟨Nat.zero_le _, fun _ hne => ?_⟩
  exact List.length_pos_iff.mpr hne

end Step

/-! ## Counting executed instructions -/

section Counting

variable {I S A G : Type} [DecidableEq I] [DecidableEq S] [DecidableEq A]
variable {code : I → Code S A} {effect : I → A → G → G} {st st' : State I S G} {i : I}

/-- How often thread `i` has executed `x`: once per occurrence in every finished round, and once
per occurrence before the counter in the current one. -/
def done (code : I → Code S A) (st : State I S G) (i : I) (x : Instr S A) : ℕ :=
  st.laps i * (code i).body.count x + ((code i).body.take (st.pc i)).count x

lemma count_take_succ {l : List (Instr S A)} {k : ℕ} {x : Instr S A} (hx : l[k]? = some x)
    (y : Instr S A) :
    (l.take (k + 1)).count y = (l.take k).count y + if x = y then 1 else 0 := by
  rw [List.take_add_one, hx, List.count_append]
  by_cases hxy : x = y <;> simp [hxy]

/-- A step of `i` executing `x` raises the count of `x` for `i` by one, and no other count. -/
theorem done_advance {x : Instr S A} (hx : (code i).body[st.pc i]? = some x) (j : I)
    (y : Instr S A) :
    done code (advance code st i) j y = done code st j y + if j = i ∧ x = y then 1 else 0 := by
  have hsucc := count_take_succ hx y
  obtain ⟨hlt, -⟩ := List.getElem?_eq_some_iff.mp hx
  by_cases hji : j = i
  · subst hji
    unfold done advance
    split
    · next hend =>
        rw [hend.2, List.take_length] at hsucc
        simp only [Function.update_self, List.take_zero, List.count_nil, true_and, hsucc]
        ring
    · simp only [Function.update_self, true_and, hsucc]
      ring
  · have hpc : (advance code st i).pc j = st.pc j := by
      unfold advance; split <;> simp [Function.update_of_ne hji]
    have hlaps : (advance code st i).laps j = st.laps j := by
      unfold advance; split <;> simp [Function.update_of_ne hji]
    simp [done, hpc, hlaps, hji]

theorem done_step (h : step code effect st i = some st') :
    ∃ x, (code i).body[st.pc i]? = some x ∧ (∀ s, x = .wait s → 0 < st.sem s) ∧
      st'.sem = x.sem st.sem ∧ st'.mem = x.mem (effect i) st.mem ∧
      ∀ j y, done code st' j y = done code st j y + if j = i ∧ x = y then 1 else 0 := by
  obtain ⟨x, hx, hpos, rfl⟩ := step_cases h
  refine ⟨x, hx, hpos, by simp, by simp, fun j y => ?_⟩
  -- semaphores and memory do not enter the counts
  set st₁ : State I S G := { st with sem := x.sem st.sem, mem := x.mem (effect i) st.mem }
  have hx₁ : (code i).body[st₁.pc i]? = some x := hx
  exact done_advance hx₁ j y

variable [Fintype I]

/-- How often all threads together have executed `x`. -/
def total (code : I → Code S A) (st : State I S G) (x : Instr S A) : ℕ :=
  ∑ i, done code st i x

theorem total_step (h : step code effect st i = some st') :
    ∃ x, (code i).body[st.pc i]? = some x ∧ (∀ s, x = .wait s → 0 < st.sem s) ∧
      st'.sem = x.sem st.sem ∧ st'.mem = x.mem (effect i) st.mem ∧
      ∀ y, total code st' y = total code st y + if x = y then 1 else 0 := by
  obtain ⟨x, hx, hpos, hsem, hmem, hdone⟩ := done_step h
  refine ⟨x, hx, hpos, hsem, hmem, fun y => ?_⟩
  simp only [total, hdone, Finset.sum_add_distrib]
  congr 1
  by_cases hxy : x = y <;> simp [hxy]

omit [DecidableEq I] in
lemma total_start (sem : S → ℕ) (mem : G) (x : Instr S A) :
    total code (start sem mem : State I S G) x = 0 := by
  simp [total, done, start]

/-- **Token conservation.**  The value of a semaphore plus the waits passed is its initial value
plus the posts made. -/
theorem conservation {sem : S → ℕ} {mem : G} (hr : Reachable code effect sem mem st) (s : S) :
    st.sem s + total code st (.wait s) = sem s + total code st (.post s) := by
  refine hr.induct (P := fun st =>
    st.sem s + total code st (.wait s) = sem s + total code st (.post s)) ?_ ?_
  · rw [total_start, total_start]
    rfl
  · intro st st' i _ hP hst
    obtain ⟨x, -, hpos, hsem, -, htot⟩ := total_step hst
    rw [hsem, htot, htot]
    cases x with
    | wait t =>
        have ht := hpos t rfl
        by_cases hts : t = s
        · subst hts
          simp only [Instr.sem, Function.update_self, reduceCtorEq, if_true, if_false]
          omega
        · simpa [Instr.sem, Function.update_of_ne (Ne.symm hts), hts] using hP
    | post t =>
        by_cases hts : t = s
        · subst hts
          simp only [Instr.sem, Function.update_self, reduceCtorEq, if_true, if_false]
          omega
        · simpa [Instr.sem, Function.update_of_ne (Ne.symm hts), hts] using hP
    | act a => simpa [Instr.sem] using hP

/-- A counter in memory that one action raises by one and no other action changes counts the
executions of that action. -/
theorem mem_counts {sem : S → ℕ} {mem : G} (f : G → ℕ) (a : A)
    (hf : ∀ i b m, f (effect i b m) = f m + if b = a then 1 else 0)
    (hr : Reachable code effect sem mem st) :
    f st.mem = f mem + total code st (.act a) := by
  refine hr.induct (P := fun st => f st.mem = f mem + total code st (.act a)) ?_ ?_
  · rw [total_start]
    rfl
  · intro st st' i _ hP hst
    obtain ⟨x, -, -, -, hmem, htot⟩ := total_step hst
    rw [hmem, htot]
    cases x with
    | wait t => simpa [Instr.mem] using hP
    | post t => simpa [Instr.mem] using hP
    | act b =>
        simp only [Instr.mem, hf, hP, Instr.act.injEq]
        omega

/-! ### Length of a run -/

/-- The instructions thread `i` has executed. -/
def work (code : I → Code S A) (st : State I S G) (i : I) : ℕ :=
  st.laps i * (code i).body.length + st.pc i

omit [DecidableEq A] in
lemma work_step (h : step code effect st i = some st') :
    ∑ j, work code st' j = ∑ j, work code st j + 1 := by
  obtain ⟨x, hx, -, rfl⟩ := step_cases h
  have hone : ∀ j, work code (advance code { st with
      sem := x.sem st.sem, mem := x.mem (effect i) st.mem } i) j
        = work code st j + if j = i then 1 else 0 := by
    intro j
    by_cases hji : j = i
    · subst hji
      unfold work advance
      split
      · next hend =>
          obtain ⟨-, hlen⟩ := hend
          simp only at hlen
          simp only [Function.update_self, if_true, ← hlen]
          ring
      · simp only [Function.update_self, if_true]
        ring
    · unfold work advance
      split <;> simp [hji]
  simp [hone, Finset.sum_add_distrib]

omit [DecidableEq A] in
/-- The length of an interleaving is the work it has done. -/
theorem exec_length {is : List I} (h : exec code effect st is = some st') :
    ∑ j, work code st' j = ∑ j, work code st j + is.length := by
  induction is generalizing st with
  | nil =>
      cases h
      rfl
  | cons i is ih =>
      obtain ⟨st₁, hst₁, hrest⟩ := Option.bind_eq_some_iff.mp h
      rw [ih hrest, work_step hst₁, List.length_cons]
      omega

omit [DecidableEq I] [Fintype I] in
/-- A thread whose rounds begin with `x` has done at most a round of work for each `x`. -/
lemma work_le {x : Instr S A} {i : I} (hcount : (code i).body.count x = 1)
    (hfirst : ∀ k ≤ (code i).body.length,
      k ≤ (code i).body.length * ((code i).body.take k).count x)
    (hpc : st.pc i ≤ (code i).body.length) :
    work code st i ≤ (code i).body.length * done code st i x := by
  have hk := hfirst _ hpc
  rw [work, done, hcount, Nat.mul_one, Nat.mul_add, Nat.mul_comm (st.laps i)]
  omega

end Counting

/-! ## Program order -/

section Order

variable {I S A G : Type} [DecidableEq S] [DecidableEq A]
variable {code : I → Code S A} {st : State I S G} {i : I}

/-- In the text of the thread, `y` follows `x`: every prefix has executed `x` at least as often
as `y` and at most `n` times more, and a whole round executes them equally often. -/
def Code.Leads (c : Code S A) (x y : Instr S A) (n : ℕ) : Prop :=
  c.body.count x = c.body.count y ∧ ∀ k ∈ List.range (c.body.length + 1),
    (c.body.take k).count y ≤ (c.body.take k).count x ∧
      (c.body.take k).count x ≤ (c.body.take k).count y + n

instance (c : Code S A) (x y : Instr S A) (n : ℕ) : Decidable (c.Leads x y n) :=
  inferInstanceAs (Decidable (_ ∧ _))

theorem done_of_leads {x y : Instr S A} {n : ℕ} (hl : (code i).Leads x y n)
    (hpc : st.pc i ≤ (code i).body.length) :
    done code st i y ≤ done code st i x ∧ done code st i x ≤ done code st i y + n := by
  obtain ⟨hcount, hk⟩ := hl
  have := hk (st.pc i) (by rw [List.mem_range]; omega)
  unfold done
  rw [hcount]
  omega

/-- An instruction that does not occur in the text is never executed. -/
lemma done_of_notMem {x : Instr S A} (hx : x ∉ (code i).body) : done code st i x = 0 := by
  have htake : x ∉ (code i).body.take (st.pc i) := fun h => hx (List.mem_of_mem_take h)
  simp [done, List.count_eq_zero_of_not_mem hx, List.count_eq_zero_of_not_mem htake]

variable [DecidableEq I] [Fintype I] {effect : I → A → G → G} {sem : S → ℕ} {mem : G}

/-- Program order, summed over all threads. -/
theorem total_of_leads {x y : Instr S A} {n : I → ℕ} (hl : ∀ i, (code i).Leads x y (n i))
    (hr : Reachable code effect sem mem st) :
    total code st y ≤ total code st x ∧ total code st x ≤ total code st y + ∑ i, n i := by
  have hd := fun i => done_of_leads (hl i) (hr.inBody i).1
  refine ⟨Finset.sum_le_sum fun i _ => (hd i).1, ?_⟩
  unfold total
  rw [← Finset.sum_add_distrib]
  exact Finset.sum_le_sum fun i _ => (hd i).2

omit [DecidableEq A] [Fintype I] in
/-- A thread whose body is not a loop is in its only round. -/
lemma Reachable.laps_eq_zero (hr : Reachable code effect sem mem st)
    (hloops : (code i).loops = false) : st.laps i = 0 := by
  refine hr.induct (P := fun st => st.laps i = 0) rfl ?_
  intro st st' j _ hP hst
  obtain ⟨x, -, -, rfl⟩ := step_cases hst
  unfold advance
  split
  · next hend =>
      have hij : i ≠ j := by
        rintro rfl
        rw [hloops] at hend
        exact Bool.noConfusion hend.1
      simpa [Function.update_of_ne hij] using hP
  · exact hP

omit [Fintype I] in
/-- A thread that runs once executes no instruction more often than its text shows it. -/
lemma done_le_count (hr : Reachable code effect sem mem st) (hloops : (code i).loops = false)
    (x : Instr S A) : done code st i x ≤ (code i).body.count x := by
  rw [done, hr.laps_eq_zero hloops, Nat.zero_mul, Nat.zero_add]
  exact List.Sublist.count_le _ (List.take_sublist _ _)

end Order

/-! ## Binary semaphores -/

section Mutex

variable {I S A G : Type} [DecidableEq I] [DecidableEq S] [DecidableEq A] [Fintype I]
variable {code : I → Code S A} {effect : I → A → G → G} {st st' : State I S G}
variable {sem : S → ℕ} {mem : G}

/-- Thread `i` has passed `sem_wait(M)` and not yet the matching `sem_post(M)`. -/
def InSection (code : I → Code S A) (st : State I S G) (M : S) (i : I) : Prop :=
  done code st i (.post M) < done code st i (.wait M)

instance (M : S) (i : I) : Decidable (InSection code st M i) := inferInstanceAs (Decidable (_ < _))

/-- **Mutual exclusion.** -/
theorem mutex_exclusive {M : S} (hM : sem M = 1)
    (hl : ∀ i, (code i).Leads (.wait M) (.post M) 1)
    (hr : Reachable code effect sem mem st) {i j : I}
    (hi : InSection code st M i) (hj : InSection code st M j) : i = j := by
  by_contra hij
  have hcons := conservation hr M
  rw [hM] at hcons
  -- two threads inside would need two tokens
  have hle : ∀ k, done code st k (.post M) + (if k = i then 1 else 0) + (if k = j then 1 else 0)
      ≤ done code st k (.wait M) := by
    intro k
    have hk := (done_of_leads (hl k) ((hr.inBody k).1)).1
    unfold InSection at hi hj
    by_cases hki : k = i
    · subst hki
      simp only [if_true, if_neg hij]
      omega
    · by_cases hkj : k = j
      · subst hkj
        simp only [if_true, if_neg hki]
        omega
      · simp only [if_neg hki, if_neg hkj]
        omega
  have hsum := Finset.sum_le_sum (s := Finset.univ) fun k _ => hle k
  simp only [Finset.sum_add_distrib, Finset.sum_ite_eq', Finset.mem_univ, if_true] at hsum
  unfold total at hcons
  omega

/-- A taken binary semaphore is held by some thread. -/
theorem exists_inSection {M : S} (hM : sem M = 1) (hr : Reachable code effect sem mem st)
    (hzero : st.sem M = 0) : ∃ i, InSection code st M i := by
  by_contra hno
  have hle : ∀ i, done code st i (.wait M) ≤ done code st i (.post M) :=
    fun i => Nat.le_of_not_lt fun h => hno ⟨i, h⟩
  have hsum := Finset.sum_le_sum (s := Finset.univ) fun k _ => hle k
  have hcons := conservation hr M
  unfold total at hcons
  omega

/-- In the text of the thread, a section of `M` contains no wait but for a semaphore among
`mutex` of smaller rank, and does not reach the end of the text. -/
def Code.Ordered (c : Code S A) (mutex : S → Bool) (rank : S → ℕ) (M : S) : Prop :=
  c.body.count (.wait M) = c.body.count (.post M) ∧ ∀ k ∈ List.range (c.body.length + 1),
    (c.body.take k).count (.post M) < (c.body.take k).count (.wait M) →
      match c.body[k]? with
      | none => False
      | some (.wait s) => mutex s = true ∧ rank s < rank M
      | some _ => True

instance (c : Code S A) (mutex : S → Bool) (rank : S → ℕ) (M : S) :
    Decidable (c.Ordered mutex rank M) := by
  unfold Code.Ordered
  refine @instDecidableAnd _ _ _ (@List.decidableBAll _ _ (fun k => ?_) _)
  refine @instDecidableForall _ _ _ ?_
  split <;> infer_instance

/-- **Lock order.**  When binary semaphores are only acquired inside sections of higher rank, a
stuck state has no thread waiting on one of them. -/
theorem not_blocked_on_mutex {mutex : S → Bool} {rank : S → ℕ}
    (hsem : ∀ M, mutex M = true → sem M = 1)
    (hord : ∀ i M, mutex M = true → (code i).Ordered mutex rank M)
    (hr : Reachable code effect sem mem st) (hstuck : Stuck code effect st) (M : S)
    (hM : mutex M = true) (i : I) : (code i).body[st.pc i]? ≠ some (.wait M) := by
  -- induction on the rank: the holder of `M` is itself stuck, so it waits on a lower rank
  induction hrank : rank M using Nat.strong_induction_on generalizing M i with
  | _ r ih =>
      intro hwait
      have hzero : st.sem M = 0 := by
        have hlt := (List.getElem?_eq_some_iff.mp hwait).1
        rcases step_eq_none (hstuck i) with hend | ⟨s, hs, h0⟩
        · omega
        · rw [hwait] at hs
          cases hs
          exact h0
      obtain ⟨j, hj⟩ := exists_inSection (hsem M hM) hr hzero
      obtain ⟨hcount, hk⟩ := hord j M hM
      have hpc := (hr.inBody j).1
      have hj' : ((code j).body.take (st.pc j)).count (.post M)
          < ((code j).body.take (st.pc j)).count (.wait M) := by
        unfold InSection done at hj
        rw [hcount] at hj
        omega
      have hinstr := hk (st.pc j) (by rw [List.mem_range]; omega) hj'
      rcases step_eq_none (hstuck j) with hend | ⟨s, hs, -⟩
      · rw [List.getElem?_eq_none hend] at hinstr
        exact hinstr
      · rw [hs] at hinstr
        exact ih (rank s) (by omega) s hinstr.1 j rfl hs

end Mutex

end SemProg
