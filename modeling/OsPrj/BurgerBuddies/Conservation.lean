import OsPrj.BurgerBuddies.Model

/-!
# Conservation of burgers and orders

The counts of printed lines, of waits and of posts are tied together by two kinds of facts only:
**program order** inside one thread function (`total_leads`, read off the text by `decide`) and
**token conservation** of the eight semaphores.  `Ledger` collects them for a reachable state;
the bounds of `burgers_conserved` are linear consequences.
-/

namespace BurgerBuddies

open SemProg

variable {a : Args} {st : St a}

/-! ## Program order -/

/-- `y` follows `x` in every thread function, with a slack for each kind of thread. -/
lemma total_leads {x y : Stmt} {n₁ n₂ n₃ : ℕ} (hr : Reachable a st)
    (hcook : cookFunc.Leads x y n₁) (hcashier : cashierFunc.Leads x y n₂)
    (hcustom : customFunc.Leads x y n₃) :
    total (code a) st y ≤ total (code a) st x ∧
      total (code a) st x ≤ total (code a) st y
        + (a.cookNum * n₁ + a.cashierNum * n₂ + a.custNum * n₃) := by
  set n : Thread a → ℕ := fun t =>
    Sum.elim (fun _ => n₁) (Sum.elim (fun _ => n₂) fun _ => n₃) (Thread.equiv a t)
  have hl : ∀ t, (code a t).Leads x y (n t) := by
    rintro (i | i | i)
    · exact hcook
    · exact hcashier
    · exact hcustom
  have hsum : ∑ t, n t = a.cookNum * n₁ + a.cashierNum * n₂ + a.custNum * n₃ := by
    simp [sum_thread, n, Thread.equiv]
  rw [← hsum]
  exact total_of_leads hl hr

/-- A statement of `custom_func` alone is executed by no more threads than there are customers. -/
lemma total_le_custNum {x : Stmt} (hr : Reachable a st) (hcook : x ∉ cookFunc.body)
    (hcashier : x ∉ cashierFunc.body) (hcustom : customFunc.body.count x = 1) :
    total (code a) st x ≤ a.custNum := by
  have hle : ∀ t, done (code a) st t x
      ≤ match t with | .customer _ => 1 | _ => 0 := by
    rintro (i | i | i)
    · exact le_of_eq (done_of_notMem hcook)
    · exact le_of_eq (done_of_notMem hcashier)
    · exact (done_le_count hr rfl x).trans (le_of_eq hcustom)
  refine (Finset.sum_le_sum fun t _ => hle t).trans (le_of_eq ?_)
  simp [sum_thread]

/-! ## Printed lines -/

/-- The lines of a kind count the executions of its `printf`. -/
theorem printed_eq_total (hr : Reachable a st) (l : Line) :
    printed st l = total (code a) st (.act (.print l)) := by
  have h := mem_counts (fun m : Mem a => m.log.countP fun e => e.1 = l) (.print l)
    (fun t b m => ?_) hr
  · simpa [printed, memInit] using h
  · cases b with
    | print l' => by_cases hl : l' = l <;> simp [effect, hl]
    | readLeft => simp [effect]
    | writeLeft => simp [effect]
    | checkLeft => simp only [effect]; split_ifs <;> simp_all

/-! ## The ledger -/

/-- Every linear relation between the counts that a reachable state satisfies, along the way of
a burger and of an order. -/
structure Ledger (st : St a) : Prop where
  /-- A cook takes a free place, makes the burger and offers it. -/
  cook_make : total (code a) st (.act (.print .make)) ≤ total (code a) st (.wait .emptyRack)
  make_offer : total (code a) st (.post .burgerNum) ≤ total (code a) st (.act (.print .make))
  /-- A cashier activates, accepts, waits for a burger, takes it, provides it, frees the place. -/
  order_accept : total (code a) st (.act (.print .accept)) ≤ total (code a) st (.wait .orderNum)
  accept_burger : total (code a) st (.wait .burgerNum) ≤ total (code a) st (.act (.print .accept))
  burger_take : total (code a) st (.act (.print .take)) ≤ total (code a) st (.wait .burgerNum)
  accept_take : total (code a) st (.act (.print .accept))
    ≤ total (code a) st (.act (.print .take)) + a.cashierNum
  take_provide : total (code a) st (.post .provideNum) ≤ total (code a) st (.act (.print .take))
  take_free : total (code a) st (.post .emptyRack) ≤ total (code a) st (.act (.print .take))
  /-- A customer comes, orders and takes. -/
  come_order : total (code a) st (.post .orderNum) ≤ total (code a) st (.act (.print .come))
  come_le : total (code a) st (.act (.print .come)) ≤ a.custNum
  /-- The four counting semaphores. -/
  emptyRack : st.sem .emptyRack + total (code a) st (.wait .emptyRack)
    = a.rackNum + total (code a) st (.post .emptyRack)
  burgerNum : st.sem .burgerNum + total (code a) st (.wait .burgerNum)
    = total (code a) st (.post .burgerNum)
  orderNum : st.sem .orderNum + total (code a) st (.wait .orderNum)
    = total (code a) st (.post .orderNum)
  provideNum : st.sem .provideNum + total (code a) st (.wait .provideNum)
    = total (code a) st (.post .provideNum)

/-- The slack of at most one execution, in the threads of one kind. -/
lemma total_le {x y : Stmt} (hr : Reachable a st) (hcook : cookFunc.Leads x y 1)
    (hcashier : cashierFunc.Leads x y 1) (hcustom : customFunc.Leads x y 1) :
    total (code a) st y ≤ total (code a) st x :=
  (total_leads hr hcook hcashier hcustom).1

theorem Reachable.ledger (hr : Reachable a st) : Ledger st where
  cook_make := total_le hr (by decide) (by decide) (by decide)
  make_offer := total_le hr (by decide) (by decide) (by decide)
  order_accept := total_le hr (by decide) (by decide) (by decide)
  accept_burger := total_le hr (by decide) (by decide) (by decide)
  burger_take := total_le hr (by decide) (by decide) (by decide)
  accept_take := by
    have hcook : cookFunc.Leads (.act (.print .accept)) (.act (.print .take)) 0 := by decide
    have hcashier : cashierFunc.Leads (.act (.print .accept)) (.act (.print .take)) 1 := by decide
    have hcustom : customFunc.Leads (.act (.print .accept)) (.act (.print .take)) 0 := by decide
    have h := (total_leads hr hcook hcashier hcustom).2
    omega
  take_provide := total_le hr (by decide) (by decide) (by decide)
  take_free := total_le hr (by decide) (by decide) (by decide)
  come_order := total_le hr (by decide) (by decide) (by decide)
  come_le := total_le_custNum hr (by decide) (by decide) (by decide)
  emptyRack := conservation hr .emptyRack
  burgerNum := by simpa [semaphoreInit] using conservation hr .burgerNum
  orderNum := by simpa [semaphoreInit] using conservation hr .orderNum
  provideNum := by simpa [semaphoreInit] using conservation hr .provideNum

/-! ## Mutex sections -/

/-- Every thread function brackets its mutex sections. -/
lemma leads_mutex {M : Sem} (hM : isMutex M = true) (t : Thread a) :
    (code a t).Leads (.wait M) (.post M) 1 := by
  have hcode : code a t = cookFunc ∨ code a t = cashierFunc ∨ code a t = customFunc := by
    cases t <;> simp [code]
  rcases hcode with h | h | h <;> rw [h] <;> cases M <;>
    first | decide | exact absurd hM (by decide)

lemma semaphoreInit_mutex {M : Sem} (hM : isMutex M = true) : semaphoreInit a M = 1 := by
  cases M <;> first | rfl | exact absurd hM (by decide)

theorem mutex_le_one (hr : Reachable a st) {M : Sem} (hM : isMutex M = true) :
    st.sem M ≤ 1 := by
  have hcons := conservation hr M
  rw [semaphoreInit_mutex hM] at hcons
  have hle := (total_of_leads (leads_mutex hM) hr).1
  omega

/-! ## Customers served -/

/-- A customer runs `custom_func` once: what it has executed stands before its counter. -/
lemma customer_done (hr : Reachable a st) (i : Fin a.custNum) (x : Stmt) :
    done (code a) st (.customer i) x
      = (customFunc.body.take (st.pc (.customer i))).count x := by
  rw [done, SemProg.Reachable.laps_eq_zero hr rfl, Nat.zero_mul, Nat.zero_add]
  rfl

lemma customer_pc_le (hr : Reachable a st) (i : Fin a.custNum) : st.pc (.customer i) ≤ 12 :=
  (SemProg.Reachable.inBody hr (.customer i)).1

/-- A statement of `custom_func` alone is counted over the customers. -/
lemma total_customers {x : Stmt} (hr : Reachable a st) (hcook : x ∉ cookFunc.body)
    (hcashier : x ∉ cashierFunc.body) :
    total (code a) st x = ∑ i, (customFunc.body.take (st.pc (.customer i))).count x := by
  have h₁ : ∀ i, done (code a) st (.cook i) x = 0 := fun i => done_of_notMem hcook
  have h₂ : ∀ i, done (code a) st (.cashier i) x = 0 := fun i => done_of_notMem hcashier
  simp [total, sum_thread, h₁, h₂, customer_done hr]

lemma count_provide_wait : ∀ k ≤ 12,
    (customFunc.body.take k).count (.wait .provideNum) = if 6 < k then 1 else 0 := by
  decide

/-- The customers past `sem_wait(&provide_num)` are the waits on it. -/
theorem served_eq_total (hr : Reachable a st) :
    served st = total (code a) st (.wait .provideNum) := by
  rw [total_customers hr (by decide) (by decide)]
  simp only [count_provide_wait _ (customer_pc_le hr _), Finset.sum_boole, served, Nat.cast_id]

/-! ## The bounds -/

/-- **Burgers and orders are conserved** in every state that an interleaving leads to: the rack
never holds more burgers than places, no burger is taken that was not made and none handed over
for an order that was not accepted; the mutex sections exclude each other; every semaphore stays
below the largest of the rack, the customers and one. -/
theorem burgers_conserved (a : Args) (is : List (Thread a)) (st : St a)
    (hrun : run a is = some st) :
    (printed st .take ≤ printed st .make ∧
      printed st .make - printed st .take ≤ a.rackNum) ∧
    (printed st .take ≤ printed st .accept ∧ printed st .accept ≤ printed st .come ∧
      printed st .come ≤ a.custNum) ∧
    printed st .accept - printed st .take ≤ a.cashierNum ∧
    served st ≤ printed st .take ∧
    (∀ M, isMutex M = true → ∀ t u,
      InSection (code a) st M t → InSection (code a) st M u → t = u) ∧
    ∀ s, st.sem s ≤ max (max a.rackNum a.custNum) 1 := by
  have hr : Reachable a st := ⟨is, hrun⟩
  have hl := hr.ledger
  obtain ⟨h₁, h₂, h₃, h₄, h₅, h₆, h₇, h₈, h₉, h₁₀, h₁₁, h₁₂, h₁₃, h₁₄⟩ := hl
  simp only [printed_eq_total hr, served_eq_total hr]
  refine ⟨⟨by omega, by omega⟩, ⟨by omega, by omega, h₁₀⟩, by omega, by omega, ?_, ?_⟩
  · intro M hM t u ht hu
    exact mutex_exclusive (semaphoreInit_mutex hM) (leads_mutex hM) hr ht hu
  · intro s
    cases hs : isMutex s with
    | true =>
        have := mutex_le_one hr hs
        omega
    | false =>
        cases s with
        | emptyRack => omega
        | burgerNum => omega
        | orderNum => omega
        | provideNum => omega
        | _ => exact absurd hs (by decide)

/-- One thread of each kind and one place on the rack. -/
def oneEach : Args := ⟨1, 1, 1, 1, by decide, by decide, by decide, by decide⟩

/-- An interleaving that serves the customer of `oneEach`: burger, order, hand-over, leave. -/
def serveOne : List (Thread oneEach) :=
  let cook := .cook ⟨0, oneEach.cook_pos⟩
  let cashier := .cashier ⟨0, oneEach.cashier_pos⟩
  let customer := .customer ⟨0, oneEach.cust_pos⟩
  List.replicate 7 cook ++ List.replicate 6 customer ++ List.replicate 12 cashier
    ++ List.replicate 6 customer ++ List.replicate 7 cook

theorem burgers_conserved_oneEach : ∃ st, run oneEach serveOne = some st ∧
    printed st .make - printed st .take ≤ oneEach.rackNum ∧ served st ≤ printed st .take := by
  have hsome : (run oneEach serveOne).isSome := by decide
  obtain ⟨st, hst⟩ := Option.isSome_iff_exists.mp hsome
  obtain ⟨⟨-, hrack⟩, -, -, hserved, -⟩ := burgers_conserved oneEach serveOne st hst
  exact ⟨st, hst, hrack, hserved⟩

end BurgerBuddies
