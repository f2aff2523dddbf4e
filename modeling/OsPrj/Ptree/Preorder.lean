import OsPrj.Lib.Forest
import OsPrj.Ptree.Model

/-!
# ptree lists the process tree in preorder

A process tree is a forest (`Forest.Shape`) whose children lists are the circular lists in the
kernel's memory (`ListHead.Represents`).

* `dfsLoop_eq` — from any place in a children list the loop appends the records of the forest
  that is left, in preorder; the counter is threaded through, the depth is not.
* `dfsPtree_eq` — the same for the whole call.
* `ptree_preorder` — what the user reads is **the preorder of the tree, each task once**.
-/

namespace Ptree

open ListHead Relation

variable {T : Type} [DecidableEq T] {h : Heap T} {kids : T → List T} {k : Ker}

/-! ## What a visit stores -/

/-- The record of a task at a depth, as `dfs_ptree` and `get_prinfo` fill it. -/
def record (h : Heap T) (t : T) (depth : ℕ) : Prinfo where
  parentPid := (h.task t).parent.elim 0 fun p => (h.task p).pid
  pid := (h.task t).pid
  firstChildPid := if listEmpty h.links (.head t) then 0 else (h.task t).pid
  nextSiblingPid := if listEmpty h.links (.node t) then 0 else (h.task t).pid
  state := (h.task t).state
  uid := (h.task t).uid
  comm := (h.task t).comm
  depth := depth

/-- The records of a forest in preorder. -/
def records (h : Heap T) (depth : ℕ) : Forest T → List Prinfo
  | .nil => []
  | .cons a c r => record h a depth :: (records h (depth + 1) c ++ records h depth r)

/-- The next free record is filled. -/
def Ker.push (k : Ker) (p : Prinfo) : Ker :=
  { k with buf := Function.update k.buf k.nr p, nr := k.nr + 1 }

@[simp] lemma Ker.push_cap (k : Ker) (p : Prinfo) : (k.push p).cap = k.cap := rfl

@[simp] lemma Ker.push_nr (k : Ker) (p : Prinfo) : (k.push p).nr = k.nr + 1 := rfl

/-- The kernel buffer after a list of records. -/
def Ker.pushAll (k : Ker) (l : List Prinfo) : Ker := l.foldl Ker.push k

lemma Ker.pushAll_cons (k : Ker) (p : Prinfo) (l : List Prinfo) :
    k.pushAll (p :: l) = (k.push p).pushAll l := rfl

lemma Ker.pushAll_append (k : Ker) (l l' : List Prinfo) :
    k.pushAll (l ++ l') = (k.pushAll l).pushAll l' := List.foldl_append

@[simp] lemma Ker.pushAll_cap (k : Ker) (l : List Prinfo) : (k.pushAll l).cap = k.cap := by
  induction l generalizing k with
  | nil => rfl
  | cons p l ih => rw [Ker.pushAll_cons, ih, Ker.push_cap]

@[simp] lemma Ker.pushAll_nr (k : Ker) (l : List Prinfo) :
    (k.pushAll l).nr = k.nr + l.length := by
  induction l generalizing k with
  | nil => rfl
  | cons p l ih => rw [Ker.pushAll_cons, ih, Ker.push_nr, List.length_cons]; omega

/-- What was in the buffer stays. -/
lemma Ker.pushAll_buf_of_lt (k : Ker) (l : List Prinfo) {j : ℕ} (hj : j < k.nr) :
    (k.pushAll l).buf j = k.buf j := by
  induction l generalizing k with
  | nil => rfl
  | cons p l ih =>
      have hne : j ≠ k.nr := by omega
      rw [Ker.pushAll_cons, ih (k.push p) (by rw [Ker.push_nr]; omega)]
      exact Function.update_of_ne hne p k.buf

lemma Ker.pushAll_buf (k : Ker) (l : List Prinfo) {i : ℕ} (hi : i < l.length) :
    (k.pushAll l).buf (k.nr + i) = l[i] := by
  induction l generalizing k i with
  | nil => exact absurd hi (by simp)
  | cons p l ih =>
      rw [Ker.pushAll_cons]
      cases i with
      | zero =>
          rw [Ker.pushAll_buf_of_lt _ _ (by simp)]
          exact Function.update_self k.nr p k.buf
      | succ i =>
          have hi' : i < l.length := by simpa using hi
          have hnr : k.nr + (i + 1) = (k.push p).nr + i := by rw [Ker.push_nr]; omega
          rw [hnr, ih (k.push p) hi', List.getElem_cons_succ]

@[simp] lemma length_records (F : Forest T) (depth : ℕ) :
    (records h depth F).length = F.size := by
  induction F generalizing depth with
  | nil => rfl
  | cons a c r ihc ihr => simp [records, Forest.size, ihc, ihr]

/-- Each record is that of a visited task, and its depth the length of the task's path. -/
lemma records_eq_map (F : Forest T) (anc : List T) :
    records h anc.length F = (F.paths anc).map fun e => record h e.1 e.2.length := by
  induction F generalizing anc with
  | nil => rfl
  | cons a c r ihc ihr =>
      have hc := ihc (a :: anc)
      rw [List.length_cons] at hc
      rw [records, Forest.paths, List.map_cons, List.map_append, hc, ihr]

/-- One visit, before the loop over the children. -/
lemma visit_eq (t : T) (depth : ℕ) (hcap : k.nr < k.cap) :
    (k.write k.nr { k.buf k.nr with depth := depth } >>= getPrinfo h t k.nr)
      = .ok (k.push (record h t depth)) := by
  cases hc : listEmpty h.links (.head t) <;> cases hs : listEmpty h.links (.node t) <;>
    simp [Ker.write, getPrinfo, hcap, hc, hs, record, Ker.push, listEntryChildren,
      listEntrySibling, bind, Except.bind, pure, Except.pure]

/-! ## The loop and the recursion -/

/-- Where `pos` stands when the forest `F` of children of `root` is left. -/
def entry (root : T) : Forest T → Node T T
  | .nil => .head root
  | .cons a _ _ => .node a

lemma next_head_eq (hrep : Represents h.links kids) {t : T} {c : Forest T}
    (hkids : kids t = c.roots) : h.links.next (.head t) = entry t c := by
  rw [hrep.next_head, hkids]
  cases c <;> rfl

lemma next_node_eq (hrep : Represents h.links kids) {root a : T} {c r : Forest T} {pre : List T}
    (hroots : kids root = pre ++ (Forest.cons a c r).roots) :
    h.links.next (.node a) = entry root r := by
  cases r with
  | nil => exact hrep.next_last hroots
  | cons b c' r' => exact hrep.next_mid hroots

/-- A call stores the record of its task and then runs the loop. -/
lemma dfsPtree_eq_loop (hrep : Represents h.links kids) {t : T} {c : Forest T}
    (hkids : kids t = c.roots) (hcap : k.nr < k.cap) (fuel depth : ℕ) :
    dfsPtree h (fuel + 1) t depth k
      = dfsLoop h fuel t (entry t c) depth (k.push (record h t depth)) := by
  rw [dfsPtree, next_head_eq hrep hkids]
  show (_ >>= fun k => getPrinfo h t _ k >>= _) = _
  rw [← bind_assoc, visit_eq t depth hcap]
  rfl

/-- A turn of the loop calls `dfs_ptree` and goes on from the next child. -/
lemma dfsLoop_eq_call (hrep : Represents h.links kids) {root a : T} {c r : Forest T}
    {pre : List T} (hroots : kids root = pre ++ (Forest.cons a c r).roots) (fuel depth : ℕ) :
    dfsLoop h (fuel + 1) root (entry root (.cons a c r)) depth k
      = dfsPtree h fuel a (depth + 1) k >>= dfsLoop h fuel root (entry root r) depth := by
  rw [dfsLoop, if_neg (by simp [entry]), entry, next_node_eq hrep hroots]
  rfl

/-- **The loop from any place in a children list**: it appends the records of the forest that is
left. -/
theorem dfsLoop_eq (hrep : Represents h.links kids) {F : Forest T} (hF : F.Shape kids)
    {root : T} {pre : List T} (hroots : kids root = pre ++ F.roots) {fuel depth : ℕ}
    (hcap : k.nr + F.size ≤ k.cap) (hfuel : 2 * F.size + 1 ≤ fuel) :
    dfsLoop h fuel root (entry root F) depth k
      = .ok (k.pushAll (records h (depth + 1) F)) := by
  induction F generalizing root pre fuel depth k with
  | nil =>
      obtain ⟨f, rfl⟩ : ∃ f, fuel = f + 1 := ⟨fuel - 1, by omega⟩
      simp [dfsLoop, entry, records, Ker.pushAll, pure, Except.pure]
  | cons a c r ihc ihr =>
      obtain ⟨hkids, hc, hr⟩ := hF
      rw [Forest.size] at hcap hfuel
      -- one unit for the loop, one for the call of `dfs_ptree`
      obtain ⟨f, rfl⟩ : ∃ f, fuel = f + 2 := ⟨fuel - 2, by omega⟩
      set k₁ := k.push (record h a (depth + 1)) with hk₁
      set k₂ := k₁.pushAll (records h (depth + 2) c) with hk₂
      have hcall : dfsPtree h (f + 1) a (depth + 1) k = .ok k₂ := by
        have hkids' : kids a = [] ++ c.roots := hkids
        rw [dfsPtree_eq_loop hrep hkids (by omega)]
        refine ihc hc hkids' ?_ (by omega)
        rw [Ker.push_nr, Ker.push_cap]
        omega
      have hrest : dfsLoop h (f + 1) root (entry root r) depth k₂
          = .ok (k₂.pushAll (records h (depth + 1) r)) := by
        have hroots' : kids root = (pre ++ [a]) ++ r.roots := by simp [hroots, Forest.roots]
        refine ihr hr hroots' ?_ (by omega)
        rw [hk₂, Ker.pushAll_nr, Ker.pushAll_cap, hk₁, Ker.push_nr, Ker.push_cap, length_records]
        omega
      have hpush : k.pushAll (records h (depth + 1) (.cons a c r))
          = k₂.pushAll (records h (depth + 1) r) := by
        rw [records, Ker.pushAll_cons, Ker.pushAll_append]
      rw [hpush, ← hrest, dfsLoop_eq_call hrep hroots, hcall]
      rfl

/-! ## The system call -/

/-- A process tree in memory: children lists, none of which holds `init_task`, and the finite
forest they form below it. -/
structure ProcessTree (h : Heap T) (initTask : T) where
  kids : T → List T
  below : Forest T
  represents : Represents h.links kids
  kids_init : kids initTask = below.roots
  shape : below.Shape kids
  init_notMem : ∀ t, initTask ∉ kids t

namespace ProcessTree

variable {initTask : T} (tree : ProcessTree h initTask)

/-- The whole tree, with its root. -/
def forest : Forest T := .cons initTask tree.below .nil

/-- The tasks in depth-first preorder, children in list order. -/
def order : List T := tree.forest.preorder

/-- `p` is an ancestor of `t`. -/
def Ancestor (p t : T) : Prop := TransGen (Forest.Child tree.kids) p t

/-- The number of ancestors of a task. -/
noncomputable def depth (t : T) : ℕ := {p | tree.Ancestor p t}.ncard

lemma forest_shape : tree.forest.Shape tree.kids := ⟨tree.kids_init, tree.shape, trivial⟩

lemma parent_unique {a b t : T} (ha : t ∈ tree.kids a) (hb : t ∈ tree.kids b) : a = b :=
  tree.represents.disjoint ha hb

lemma root_notMem {r : T} (hr : r ∈ tree.forest.roots) (t : T) : r ∉ tree.kids t := by
  obtain rfl : r = initTask := by simpa [forest, Forest.roots] using hr
  exact tree.init_notMem t

theorem order_nodup : tree.order.Nodup :=
  Forest.nodup_preorder tree.represents.nodup tree.parent_unique tree.forest_shape
    (by simp [forest, Forest.roots]) fun _ hr s _ => tree.root_notMem hr s

theorem mem_order_iff {t : T} : t ∈ tree.order ↔ t = initTask ∨ tree.Ancestor initTask t := by
  rw [order, Forest.mem_preorder_iff tree.forest_shape]
  simp [forest, Forest.roots, Ancestor, reflTransGen_iff_eq_or_transGen]

/-- The records of the tree, with the number of ancestors as depth. -/
theorem records_eq : records h 0 tree.forest
    = tree.order.map fun t => record h t (tree.depth t) := by
  have hpaths := records_eq_map (h := h) tree.forest []
  rw [List.length_nil] at hpaths
  rw [hpaths, order, ← Forest.map_fst_paths tree.forest [], List.map_map]
  refine List.map_congr_left fun e he => ?_
  have hdepth := Forest.ncard_ancestors tree.parent_unique tree.forest_shape
    (fun r hr t => tree.root_notMem hr t) he
  show record h e.1 e.2.length = record h e.1 (tree.depth e.1)
  rw [depth, ← hdepth]
  rfl

/-- The whole call of `dfs_ptree` fills the buffer with the records of the tree. -/
theorem dfsPtree_eq (hcap : tree.order.length ≤ k.cap) (hnr : k.nr = 0) {fuel : ℕ}
    (hfuel : 2 * tree.order.length ≤ fuel) :
    dfsPtree h fuel initTask 0 k = .ok (k.pushAll (records h 0 tree.forest)) := by
  have hsize : tree.order.length = tree.below.size + 1 := by
    simp [order, forest, Forest.size]
  obtain ⟨f, rfl⟩ : ∃ f, fuel = f + 1 := ⟨fuel - 1, by omega⟩
  have hkids : tree.kids initTask = [] ++ tree.below.roots := tree.kids_init
  have hrecords : k.pushAll (records h 0 tree.forest)
      = (k.push (record h initTask 0)).pushAll (records h 1 tree.below) := by
    simp [forest, records, Ker.pushAll_cons]
  rw [hrecords, dfsPtree_eq_loop tree.represents tree.kids_init (by omega)]
  refine dfsLoop_eq tree.represents tree.shape hkids ?_ (by omega)
  rw [Ker.push_nr, Ker.push_cap]
  omega

end ProcessTree

/-- When the traversal ends and nothing fails, the call returns `0` with both copies made. -/
lemma ptree_of_dfs {initTask : T} {env : Env} (hkcalloc : env.kcallocOk = true)
    (hkzalloc : env.kzallocOk = true) (hcopied : ∀ n, n ≤ env.copied n)
    (hcopiedNr : env.copiedNr = true) {fuel : ℕ}
    (hdfs : dfsPtree h fuel initTask 0 Ker.alloc = .ok k) (u : User) :
    ptree h initTask env fuel u = .ok
      { ret := 0, user := copyNr k (copyBuf env k u), log := ["call syscall: 356...\n"] } := by
  simp only [ptree, hkcalloc, hkzalloc, hcopiedNr, hdfs]
  show (if env.copied k.nr < k.nr then _ else _) = _
  rw [if_neg (Nat.not_lt.mpr (hcopied _))]
  rfl

/-- The successful call: the records of the tree in the caller's buffer, nothing else changed. -/
lemma ptree_records {initTask : T} (tree : ProcessTree h initTask)
    (hsize : tree.order.length ≤ 1024) (env : Env) (hkcalloc : env.kcallocOk = true)
    (hkzalloc : env.kzallocOk = true) (hcopied : ∀ n, n ≤ env.copied n)
    (hcopiedNr : env.copiedNr = true) (fuel : ℕ) (hfuel : 2 * tree.order.length ≤ fuel)
    (u : User) :
    ∃ o, ptree h initTask env fuel u = .ok o ∧ o.ret = 0 ∧
      o.user.nr = tree.order.length ∧
      (∀ i (hi : i < (records h 0 tree.forest).length),
        o.user.buf i = (records h 0 tree.forest)[i]) ∧
      ∀ i, tree.order.length ≤ i → o.user.buf i = u.buf i := by
  have hdfs := tree.dfsPtree_eq (k := Ker.alloc) hsize rfl hfuel
  set k := Ker.alloc.pushAll (records h 0 tree.forest) with hk
  have hlen : (records h 0 tree.forest).length = tree.order.length := by
    rw [tree.records_eq, List.length_map]
  have hnr : k.nr = tree.order.length := by
    rw [hk, Ker.pushAll_nr, hlen]
    exact Nat.zero_add _
  refine ⟨_, ptree_of_dfs hkcalloc hkzalloc hcopied hcopiedNr hdfs u, rfl, hnr, ?_, ?_⟩
  · intro i hi
    have hbuf := Ker.pushAll_buf Ker.alloc (records h 0 tree.forest) hi
    have hcopy : i < min (env.copied k.nr) k.nr := by
      rw [min_eq_right (hcopied _), hnr, ← hlen]
      exact hi
    show (if i < min (env.copied k.nr) k.nr then k.buf i else u.buf i) = _
    rw [if_pos hcopy, ← hbuf, hk]
    exact congrArg _ (Nat.zero_add i).symm
  · intro i hi
    show (if i < min (env.copied k.nr) k.nr then k.buf i else u.buf i) = _
    rw [if_neg (by omega)]

/-- **`ptree` lists the whole process tree once in depth-first preorder**: with room for the
tree in the buffer, the call returns `0`, `*nr` is the number of tasks and record `i` is that of
the `i`-th task of the preorder, at the depth of its number of ancestors.  The preorder has every
task of the tree once, a task before its descendants, and each subtree in consecutive records. -/
theorem ptree_preorder {initTask : T} (tree : ProcessTree h initTask)
    (hsize : tree.order.length ≤ 1024) (env : Env) (hkcalloc : env.kcallocOk = true)
    (hkzalloc : env.kzallocOk = true) (hcopied : ∀ n, n ≤ env.copied n)
    (hcopiedNr : env.copiedNr = true) (fuel : ℕ) (hfuel : 2 * tree.order.length ≤ fuel)
    (u : User) :
    (∃ o, ptree h initTask env fuel u = .ok o ∧ o.ret = 0 ∧
      o.user.nr = tree.order.length ∧
      (∀ i (hi : i < tree.order.length),
        o.user.buf i = record h tree.order[i] (tree.depth tree.order[i])) ∧
      ∀ i, tree.order.length ≤ i → o.user.buf i = u.buf i) ∧
    tree.order.Nodup ∧
    (∀ t, t ∈ tree.order ↔ t = initTask ∨ tree.Ancestor initTask t) ∧
    (∀ i j (hi : i < tree.order.length) (hj : j < tree.order.length),
      tree.Ancestor tree.order[i] tree.order[j] → i < j) ∧
    ∀ i (hi : i < tree.order.length), ∃ n, ∀ j (hj : j < tree.order.length),
      (tree.order[j] = tree.order[i] ∨ tree.Ancestor tree.order[i] tree.order[j]) ↔
        i ≤ j ∧ j < i + n := by
  have hindex : ∀ i (hi : i < tree.order.length), ∃ n, ∀ j (hj : j < tree.order.length),
      (tree.order[j] = tree.order[i] ∨ tree.Ancestor tree.order[i] tree.order[j]) ↔
        i ≤ j ∧ j < i + n := by
    intro i hi
    obtain ⟨n, hn⟩ := Forest.descends_iff_index tree.forest_shape tree.order_nodup hi
    refine ⟨n, fun j hj => ?_⟩
    rw [← hn j hj, reflTransGen_iff_eq_or_transGen]
    rfl
  refine ⟨?_, tree.order_nodup, fun t => tree.mem_order_iff, ?_, hindex⟩
  · obtain ⟨o, hptree, hret, hnr, hbuf, hrest⟩ :=
      ptree_records tree hsize env hkcalloc hkzalloc hcopied hcopiedNr fuel hfuel u
    refine ⟨o, hptree, hret, hnr, fun i hi => ?_, hrest⟩
    have hi' : i < (records h 0 tree.forest).length := by
      rwa [tree.records_eq, List.length_map]
    rw [hbuf i hi']
    simp only [tree.records_eq, List.getElem_map]
  · intro i j hi hj hanc
    obtain ⟨n, hn⟩ := hindex i hi
    have hle := ((hn j hj).mp (Or.inr hanc)).1
    refine lt_of_le_of_ne hle ?_
    rintro rfl
    obtain ⟨path, hpath⟩ := (Forest.mem_preorder_iff_paths []).mp (List.getElem_mem hi)
    exact Forest.not_transGen_self tree.parent_unique tree.forest_shape
      (fun r hr t => tree.root_notMem hr t) hpath hanc

/-- The idle task with two children, the first of which has a child. -/
def bootHeap : Heap (Fin 4) where
  links := listAddTail (listAddTail (listAddTail ⟨id, id⟩ (.node 1) (.head 0)) (.node 2) (.head 0))
    (.node 3) (.head 1)
  task t := { parent := some (if t = 3 then 1 else 0), pid := t, state := 0, uid := 0,
              comm := "task" }

def bootTree : ProcessTree bootHeap 0 where
  kids := Function.update (Function.update (Function.update (fun _ => []) 0 [1]) 0 [1, 2]) 1 [3]
  below := .cons 1 (.cons 3 .nil .nil) (.cons 2 .nil .nil)
  represents :=
    ((represents_init.addTail (by simp) 0).addTail (m := 2) (by decide) 0).addTail (m := 3)
      (by decide) 1
  kids_init := rfl
  shape := ⟨rfl, ⟨rfl, trivial, trivial⟩, rfl, trivial, trivial⟩
  init_notMem := by decide

theorem ptree_preorder_boot :
    (∃ o, ptree bootHeap 0 ⟨true, true, id, true⟩ 8 ⟨fun _ => Prinfo.zero, 0⟩ = .ok o ∧
      o.ret = 0 ∧ o.user.nr = 4) ∧ bootTree.order = [0, 1, 3, 2] := by
  obtain ⟨⟨o, hptree, hret, hnr, -, -⟩, -⟩ := ptree_preorder bootTree (by decide)
    ⟨true, true, id, true⟩ rfl rfl (fun n => le_refl n) rfl 8 (by decide)
    ⟨fun _ => Prinfo.zero, 0⟩
  exact ⟨⟨o, hptree, hret, hnr⟩, rfl⟩

/-! ## Other trees of four tasks -/

/-- The tasks of `bootHeap`, the last one as a child of the idle task. -/
def flatHeap : Heap (Fin 4) where
  links := listAddTail (listAddTail (listAddTail ⟨id, id⟩ (.node 1) (.head 0)) (.node 2) (.head 0))
    (.node 3) (.head 0)
  task t := { bootHeap.task t with parent := some 0 }

def flatTree : ProcessTree flatHeap 0 where
  kids := Function.update (Function.update (Function.update (fun _ => []) 0 [1]) 0 [1, 2]) 0
    [1, 2, 3]
  below := .cons 1 .nil (.cons 2 .nil (.cons 3 .nil .nil))
  represents :=
    ((represents_init.addTail (by simp) 0).addTail (m := 2) (by decide) 0).addTail (m := 3)
      (by decide) 0
  kids_init := rfl
  shape := ⟨rfl, trivial, rfl, trivial, rfl, trivial, trivial⟩
  init_notMem := by decide

/-- The tree of `bootHeap` with task 3 traced by task 2. -/
def tracedHeap : Heap (Fin 4) where
  links := bootHeap.links
  task t := { bootHeap.task t with parent := some (if t = 3 then 2 else 0) }

def tracedTree : ProcessTree tracedHeap 0 where
  kids := bootTree.kids
  below := bootTree.below
  represents := bootTree.represents
  kids_init := bootTree.kids_init
  shape := bootTree.shape
  init_notMem := bootTree.init_notMem

/-- The idle task has the child 1, which has the children 2 and 3. -/
def nestedHeap : Heap (Fin 4) where
  links := listAddTail (listAddTail (listAddTail ⟨id, id⟩ (.node 1) (.head 0)) (.node 2) (.head 1))
    (.node 3) (.head 1)
  task t := { parent := some (if 1 < t then 1 else 0), pid := t, state := 0, uid := 0, comm := "c" }

def nestedTree : ProcessTree nestedHeap 0 where
  kids := Function.update (Function.update (Function.update (fun _ => []) 0 [1]) 1 [2]) 1 [2, 3]
  below := .cons 1 (.cons 2 .nil (.cons 3 .nil .nil)) .nil
  represents :=
    ((represents_init.addTail (by simp) 0).addTail (m := 2) (by decide) 1).addTail (m := 3)
      (by decide) 1
  kids_init := rfl
  shape := ⟨rfl, ⟨rfl, trivial, rfl, trivial, trivial⟩, trivial⟩
  init_notMem := by decide

/-- The idle task has the children 1 and 3, and 1 has the child 2.  Task 1 traces task 3, and the
name of that starts with a tab. -/
def tabHeap : Heap (Fin 4) where
  links := listAddTail (listAddTail (listAddTail ⟨id, id⟩ (.node 1) (.head 0)) (.node 2) (.head 1))
    (.node 3) (.head 0)
  task t := { nestedHeap.task t with comm := if t = 3 then "\tc" else "c" }

def tabTree : ProcessTree tabHeap 0 where
  kids := Function.update (Function.update (Function.update (fun _ => []) 0 [1]) 1 [2]) 0 [1, 3]
  below := .cons 1 (.cons 2 .nil .nil) (.cons 3 .nil .nil)
  represents :=
    ((represents_init.addTail (by simp) 0).addTail (m := 2) (by decide) 1).addTail (m := 3)
      (by decide) 0
  kids_init := rfl
  shape := ⟨rfl, ⟨rfl, trivial, trivial⟩, rfl, trivial, trivial⟩
  init_notMem := by decide

end Ptree
