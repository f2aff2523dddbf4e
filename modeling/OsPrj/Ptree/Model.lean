import OsPrj.Lib.ListHead

/-!
# ptree

`Prj1/problem2/hello.c` (and `problem3`, whose file is the same): the system call that lists the
process tree.  `Problem1` is the version of `Prj1/problem1/hello.c`, without the depth.

A process is an address `T`; its `children` head and its `sibling` entry are the two
`struct list_head`s of `ListHead.Node T T`.  The calls that C leaves unbounded, the recursion of
`dfs_ptree` and the loop of `list_for_each`, take fuel.
-/

namespace Ptree

open ListHead

/-- The fields of `struct task_struct` that the call reads; `uid` is `cred->uid`. -/
structure TaskStruct (T : Type) where
  parent : Option T
  pid : ℤ
  state : ℤ
  uid : ℤ
  comm : String

/-- The kernel's memory: the words of the list heads and the task structures. -/
structure Heap (T : Type) where
  links : Links (Node T T)
  task : T → TaskStruct T

/-- `struct prinfo` -/
structure Prinfo where
  parentPid : ℤ
  pid : ℤ
  firstChildPid : ℤ
  nextSiblingPid : ℤ
  state : ℤ
  uid : ℤ
  comm : String
  depth : ℕ
  deriving DecidableEq

/-- Memory from `kcalloc` and `kzalloc`. -/
def Prinfo.zero : Prinfo := ⟨0, 0, 0, 0, 0, 0, "", 0⟩

/-- The ways an execution leaves what C defines. -/
inductive Fault where
  /-- a write to a record outside the allocated buffer -/
  | outOfBounds (i : ℕ)
  /-- a list head read as if it were a task -/
  | notATask
  | outOfFuel
  deriving DecidableEq

/-- `ker_buf`, with the number of records allocated, and `*ker_nr`. -/
structure Ker where
  cap : ℕ
  buf : ℕ → Prinfo
  nr : ℕ

section

variable {T : Type} [DecidableEq T]

/-- `list_entry(pos, struct task_struct, children)` -/
def listEntryChildren : Node T T → Except Fault T
  | .head t => .ok t
  | .node _ => .error .notATask

/-- `list_entry(pos, struct task_struct, sibling)`; `next` is the first word of a `list_head`, so
that `&(task->sibling).next` is the address of the entry itself. -/
def listEntrySibling : Node T T → Except Fault T
  | .node t => .ok t
  | .head _ => .error .notATask

/-- `buf[i]` is written. -/
def Ker.write (k : Ker) (i : ℕ) (p : Prinfo) : Except Fault Ker :=
  if i < k.cap then .ok { k with buf := Function.update k.buf i p } else .error (.outOfBounds i)

/-- `get_prinfo(task, buf + i, nr)` -/
def getPrinfo (h : Heap T) (task : T) (i : ℕ) (k : Ker) : Except Fault Ker := do
  let firstChildPid ←
    if listEmpty h.links (.head task) then pure 0
    else do
      let t ← listEntryChildren (.head task)
      pure (h.task t).pid
  let nextSiblingPid ←
    if listEmpty h.links (.node task) then pure 0
    else do
      let t ← listEntrySibling (.node task)
      pure (h.task t).pid
  let k ← k.write i
    { k.buf i with
      parentPid := (h.task task).parent.elim 0 fun p => (h.task p).pid
      pid := (h.task task).pid
      firstChildPid := firstChildPid
      nextSiblingPid := nextSiblingPid
      state := (h.task task).state
      uid := (h.task task).uid
      comm := (h.task task).comm }
  pure { k with nr := k.nr + 1 }

mutual

/-- `dfs_ptree(root, buf, nr, depth)` -/
def dfsPtree (h : Heap T) : ℕ → T → ℕ → Ker → Except Fault Ker
  | 0, _, _, _ => .error .outOfFuel
  | fuel + 1, root, depth, k => do
      let i := k.nr
      let k ← k.write i { k.buf i with depth := depth }
      let k ← getPrinfo h root i k
      dfsLoop h fuel root (h.links.next (.head root)) depth k

/-- The loop `list_for_each(pos, &(root->children))` of `dfs_ptree`, from `pos` on. -/
def dfsLoop (h : Heap T) : ℕ → T → Node T T → ℕ → Ker → Except Fault Ker
  | 0, _, _, _, _ => .error .outOfFuel
  | fuel + 1, root, pos, depth, k =>
      if pos = .head root then pure k
      else do
        let t ← listEntrySibling pos
        let k ← dfsPtree h fuel t (depth + 1) k
        dfsLoop h fuel root (h.links.next pos) depth k

end

/-- The memory of the caller of the system call. -/
structure User where
  buf : ℕ → Prinfo
  nr : ℕ

/-- What the call does not decide itself: whether the two allocations succeed, and how much of a
copy to user space of a given number of records, or of `*nr`, goes through. -/
structure Env where
  kcallocOk : Bool
  kzallocOk : Bool
  copied : ℕ → ℕ
  copiedNr : Bool

/-- `copy_to_user(buf, ker_buf, n * sizeof(struct prinfo))` -/
def copyBuf (env : Env) (k : Ker) (u : User) : User :=
  { u with buf := fun i => if i < min (env.copied k.nr) k.nr then k.buf i else u.buf i }

/-- `copy_to_user(nr, ker_nr, sizeof(int))` -/
def copyNr (k : Ker) (u : User) : User := { u with nr := k.nr }

/-- What the call returns: the value, the caller's memory and the kernel log. -/
structure Outcome where
  ret : ℤ
  user : User
  log : List String

/-- The buffers that `ptree` allocates. -/
def Ker.alloc : Ker := { cap := 1024, buf := fun _ => Prinfo.zero, nr := 0 }

/-- `ptree(buf, nr)`, with `&init_task` -/
def ptree (h : Heap T) (initTask : T) (env : Env) (fuel : ℕ) (u : User) :
    Except Fault Outcome :=
  let log := ["call syscall: 356...\n"]
  if !env.kcallocOk || !env.kzallocOk then
    .ok { ret := 1, user := u, log := log ++ ["KERNEL MALLOC FAILED!\n"] }
  else do
    let k ← dfsPtree h fuel initTask 0 Ker.alloc
    let u₁ := copyBuf env k u
    if env.copied k.nr < k.nr then
      pure { ret := 1, user := u₁, log := log ++ ["COPY FAILED!\n"] }
    else if !env.copiedNr then
      pure { ret := 1, user := u₁, log := log ++ ["COPY FAILED!\n"] }
    else
      pure { ret := 0, user := copyNr k u₁, log := log }

/-! ## The first version

`Prj1/problem1/hello.c`: its `struct prinfo` has no `depth`, the field that stays zero here, and
`get_prinfo` is the same. -/

namespace Problem1

mutual

/-- `dfs_ptree(root, buf, nr)` -/
def dfsPtree (h : Heap T) : ℕ → T → Ker → Except Fault Ker
  | 0, _, _ => .error .outOfFuel
  | fuel + 1, root, k => do
      let k ← getPrinfo h root k.nr k
      dfsLoop h fuel root (h.links.next (.head root)) k

/-- The loop `list_for_each(pos, &(root->children))` of `dfs_ptree`, from `pos` on. -/
def dfsLoop (h : Heap T) : ℕ → T → Node T T → Ker → Except Fault Ker
  | 0, _, _, _ => .error .outOfFuel
  | fuel + 1, root, pos, k =>
      if pos = .head root then pure k
      else do
        let t ← listEntrySibling pos
        let k ← dfsPtree h fuel t k
        dfsLoop h fuel root (h.links.next pos) k

end

/-- `ptree(buf, nr)`, with `&init_task` -/
def ptree (h : Heap T) (initTask : T) (env : Env) (fuel : ℕ) (u : User) :
    Except Fault Outcome :=
  let log := ["call syscall: 356...\n"]
  if !env.kcallocOk || !env.kzallocOk then
    .ok { ret := 1, user := u, log := log ++ ["KERNEL MALLOC FAILED!\n"] }
  else do
    let k ← dfsPtree h fuel initTask Ker.alloc
    let u₁ := copyBuf env k u
    if env.copied k.nr < k.nr then
      pure { ret := 1, user := u₁, log := log ++ ["COPY FAILED!\n"] }
    else if !env.copiedNr then
      pure { ret := 1, user := u₁, log := log ++ ["COPY FAILED!\n"] }
    else
      pure { ret := 0, user := copyNr k u₁, log := log }

end Problem1

end

end Ptree
