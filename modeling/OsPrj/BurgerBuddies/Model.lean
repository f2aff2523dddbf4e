import OsPrj.Lib.SemProg
import Mathlib.Data.Fintype.Sum
import Mathlib.Algebra.BigOperators.Fin
import Mathlib.Data.Fintype.BigOperators

/-!
# BurgerBuddies

`Prj1/problem4/BurgerBuddies.c`: cooks, cashiers and customers as threads over eight semaphores.
The three thread functions are given as the sequence of their atomic statements, in source
order: one instruction for each `sem_wait`, `sem_post` and `printf`, and for `left_num++` one
for the read and one for the write.

`main` after the creation of the threads (it spins on `terminate_signal`, then returns) is not
part of the model: the threads run on their own.
-/

namespace BurgerBuddies

open SemProg

/-- The four arguments `arg_parser` accepts. -/
structure Args where
  cookNum : ℕ
  cashierNum : ℕ
  custNum : ℕ
  rackNum : ℕ
  cook_pos : 0 < cookNum
  cashier_pos : 0 < cashierNum
  cust_pos : 0 < custNum
  rack_pos : 0 < rackNum

/-- `arg_parser`, on the `atoi` values of `argv[1]`, `argv[2]`, …; the error is the line it
prints. -/
def argParser (argv : List ℤ) : Except String Args :=
  match argv with
  | [cook, cashier, cust, rack] =>
      if h : cook > 0 ∧ cashier > 0 ∧ cust > 0 ∧ rack > 0 then
        .ok
          { cookNum := cook.toNat
            cashierNum := cashier.toNat
            custNum := cust.toNat
            rackNum := rack.toNat
            cook_pos := by omega
            cashier_pos := by omega
            cust_pos := by omega
            rack_pos := by omega }
      else .error "NEGATIVE_ARG_ERROR!\n"
  | _ => .error "ARG_NUM_ERROR!\n"

/-- The program starts with any four positive numbers, and with nothing else. -/
theorem argParser_eq_ok_iff {argv : List ℤ} {args : Args} : argParser argv = .ok args ↔
    argv = [(args.cookNum : ℤ), args.cashierNum, args.custNum, args.rackNum] := by
  constructor
  · intro hok
    unfold argParser at hok
    split at hok
    · split_ifs at hok with hpos
      cases hok
      rcases hpos with ⟨hcook, hcashier, hcust, hrack⟩
      rw [Int.toNat_of_nonneg hcook.le, Int.toNat_of_nonneg hcashier.le,
        Int.toNat_of_nonneg hcust.le, Int.toNat_of_nonneg hrack.le]
    · cases hok
  · rintro rfl
    have hcook := args.cook_pos
    have hcashier := args.cashier_pos
    have hcust := args.cust_pos
    have hrack := args.rack_pos
    rw [argParser, dif_pos (by omega)]
    rfl

/-- The eight semaphores. -/
inductive Sem where
  | mutexPrint
  | mutexRack
  | mutexEntry
  | mutexLeave
  | emptyRack
  | burgerNum
  | orderNum
  | provideNum
  deriving DecidableEq

instance : Fintype Sem where
  elems := {.mutexPrint, .mutexRack, .mutexEntry, .mutexLeave, .emptyRack, .burgerNum, .orderNum,
    .provideNum}
  complete s := by cases s <;> decide

/-- The four lines the threads print. -/
inductive Line where
  /-- `Cook [%lu] make a burger.` -/
  | make
  /-- `Casher [%lu] accepts an order.` -/
  | accept
  /-- `Casher [%lu] take a burger to customor.` -/
  | take
  /-- `Customer [%lu] come.` -/
  | come
  deriving DecidableEq

/-- The atomic statements that are no semaphore operation. -/
inductive Action where
  | print (l : Line)
  /-- `left_num++` reads `left_num` … -/
  | readLeft
  /-- … and writes it back. -/
  | writeLeft
  /-- `if(left_num == cust_num) terminate_signal = 1;` -/
  | checkLeft
  deriving DecidableEq

abbrev Stmt := Instr Sem Action

/-- `cook_func` -/
def cookFunc : Code Sem Action where
  body :=
    [ .wait .emptyRack, .wait .mutexRack,
      .wait .mutexPrint, .act (.print .make), .post .mutexPrint,
      .post .mutexRack, .post .burgerNum ]
  loops := true

/-- `cashier_func` -/
def cashierFunc : Code Sem Action where
  body :=
    [ .wait .orderNum,
      .wait .mutexPrint, .act (.print .accept), .post .mutexPrint,
      .wait .burgerNum, .wait .mutexRack,
      .wait .mutexPrint, .act (.print .take), .post .mutexPrint,
      .post .provideNum, .post .emptyRack, .post .mutexRack ]
  loops := true

/-- `custom_func` -/
def customFunc : Code Sem Action where
  body :=
    [ .wait .mutexEntry,
      .wait .mutexPrint, .act (.print .come), .post .mutexPrint,
      .post .orderNum, .post .mutexEntry,
      .wait .provideNum,
      .wait .mutexLeave, .act .readLeft, .act .writeLeft, .act .checkLeft, .post .mutexLeave ]
  loops := false

/-- The threads `thread_create` starts; thread `i` of a kind gets the id `i + 1`. -/
inductive Thread (a : Args) where
  | cook (i : Fin a.cookNum)
  | cashier (i : Fin a.cashierNum)
  | customer (i : Fin a.custNum)
  deriving DecidableEq

/-- The threads as a disjoint sum of their kinds. -/
def Thread.equiv (a : Args) :
    Thread a ≃ Fin a.cookNum ⊕ Fin a.cashierNum ⊕ Fin a.custNum where
  toFun
    | .cook i => .inl i
    | .cashier i => .inr (.inl i)
    | .customer i => .inr (.inr i)
  invFun
    | .inl i => .cook i
    | .inr (.inl i) => .cashier i
    | .inr (.inr i) => .customer i
  left_inv t := by cases t <;> rfl
  right_inv t := by rcases t with i | i | i <;> rfl

instance (a : Args) : Fintype (Thread a) := Fintype.ofEquiv _ (Thread.equiv a).symm

/-- The id a thread prints. -/
def Thread.id {a : Args} : Thread a → ℕ
  | .cook i => i + 1
  | .cashier i => i + 1
  | .customer i => i + 1

/-- The function a thread runs. -/
def code (a : Args) : Thread a → Code Sem Action
  | .cook _ => cookFunc
  | .cashier _ => cashierFunc
  | .customer _ => customFunc

/-- The memory besides the semaphores: the printed lines, `left_num`, `terminate_signal`, and
for each thread the register `left_num++` reads into. -/
structure Mem (a : Args) where
  log : List (Line × ℕ)
  leftNum : ℕ
  terminateSignal : ℕ
  reg : Thread a → ℕ

def effect (a : Args) (t : Thread a) (x : Action) (m : Mem a) : Mem a :=
  match x with
  | .print l => { m with log := m.log ++ [(l, t.id)] }
  | .readLeft => { m with reg := Function.update m.reg t m.leftNum }
  | .writeLeft => { m with leftNum := m.reg t + 1 }
  | .checkLeft => if m.leftNum = a.custNum then { m with terminateSignal := 1 } else m

/-- `semaphore_init` -/
def semaphoreInit (a : Args) : Sem → ℕ
  | .mutexPrint => 1
  | .mutexRack => 1
  | .mutexEntry => 1
  | .mutexLeave => 1
  | .emptyRack => a.rackNum
  | .burgerNum => 0
  | .orderNum => 0
  | .provideNum => 0

def memInit (a : Args) : Mem a where
  log := []
  leftNum := 0
  terminateSignal := 0
  reg := fun _ => 0

/-- The states of the program. -/
abbrev St (a : Args) := SemProg.State (Thread a) Sem (Mem a)

/-- The state `main` reaches before the threads run. -/
def start (a : Args) : St a := SemProg.start (semaphoreInit a) (memInit a)

/-- Run an interleaving of the threads. -/
def run (a : Args) (is : List (Thread a)) : Option (St a) :=
  exec (code a) (effect a) (start a) is

/-- The states some interleaving leads to. -/
def Reachable (a : Args) (st : St a) : Prop :=
  SemProg.Reachable (code a) (effect a) (semaphoreInit a) (memInit a) st

/-- No thread can take a step. -/
def Stuck (a : Args) (st : St a) : Prop := SemProg.Stuck (code a) (effect a) st

/-- How many lines of a kind have been printed. -/
def printed {a : Args} (st : St a) (l : Line) : ℕ := st.mem.log.countP fun e => e.1 = l

/-- The customers past `sem_wait(&provide_num)`, the statement at index 6. -/
def served {a : Args} (st : St a) : ℕ :=
  (Finset.univ.filter fun i : Fin a.custNum => 6 < st.pc (.customer i)).card

/-- The four mutex semaphores. -/
def isMutex : Sem → Bool
  | .mutexPrint | .mutexRack | .mutexEntry | .mutexLeave => true
  | _ => false

/-- The sections are nested with `mutex_print` innermost. -/
def mutexRank : Sem → ℕ
  | .mutexPrint => 0
  | _ => 1

/-! ## Sums over the threads -/

variable {a : Args}

lemma sum_thread (f : Thread a → ℕ) :
    ∑ t, f t = ∑ i, f (.cook i) + ∑ i, f (.cashier i) + ∑ i, f (.customer i) := by
  rw [← (Thread.equiv a).symm.sum_comp f, Fintype.sum_sum_type, Fintype.sum_sum_type, add_assoc]
  rfl

end BurgerBuddies
