import OsPrj.Ptree.Preorder

/-!
# The kernel buffer of ptree

`ptree` allocates 1024 records, and neither `dfs_ptree` nor `get_prinfo` compares `*nr` with that
number.

* `dfsLoop_overflow` — with more tasks than records left the loop writes past the buffer.
* `dfsPtree_flat` — `Prj1/problem1` runs like `problem2` with **the depth forgotten**.
* `ptree_in_bounds_iff` — both versions stay inside the buffer exactly on **trees of at most 1024
  tasks**.
-/

namespace Ptree

open ListHead

variable {T : Type} [DecidableEq T] {h : Heap T} {kids : T → List T} {k : Ker} {initTask : T}

/-! ## More tasks than records -/

/-- A visit without room writes past the buffer. -/
lemma dfsPtree_full (hfull : k.nr = k.cap) (t : T) (fuel depth : ℕ) :
    dfsPtree h (fuel + 1) t depth k = .error (.outOfBounds k.cap) := by
  rw [dfsPtree, Ker.write, hfull, if_neg (lt_irrefl _)]
  rfl

/-- **The loop writes past the buffer** when the forest that is left has more tasks than the
buffer has records left. -/
theorem dfsLoop_overflow (hrep : Represents h.links kids) {F : Forest T} (hF : F.Shape kids)
    {root : T} {pre : List T} (hroots : kids root = pre ++ F.roots) {fuel depth : ℕ}
    (hnr : k.nr ≤ k.cap) (hcap : k.cap < k.nr + F.size) (hfuel : 2 * F.size + 1 ≤ fuel) :
    dfsLoop h fuel root (entry root F) depth k = .error (.outOfBounds k.cap) := by
  induction F generalizing root pre fuel depth k with
  | nil =>
      rw [Forest.size] at hcap
      omega
  | cons a c r ihc ihr =>
      obtain ⟨hkids, hc, hr⟩ := hF
      have hkids' : kids a = [] ++ c.roots := hkids
      have hroots' : kids root = (pre ++ [a]) ++ r.roots := by simp [hroots, Forest.roots]
      rw [Forest.size] at hcap hfuel
      obtain ⟨f, rfl⟩ : ∃ f, fuel = f + 2 := ⟨fuel - 2, by omega⟩
      rw [dfsLoop_eq_call hrep hroots]
      rcases Nat.lt_or_ge k.nr k.cap with hroom | hfull
      · rw [dfsPtree_eq_loop hrep hkids hroom]
        set k₁ := k.push (record h a (depth + 1)) with hk₁
        have hnr₁ : k₁.nr = k.nr + 1 := k.push_nr _
        have hcap₁ : k₁.cap = k.cap := k.push_cap _
        -- the write past the buffer is below `a`, or else after it
        rcases Nat.lt_or_ge k₁.cap (k₁.nr + c.size) with hover | hfit
        · rw [ihc hc hkids' (by omega) hover (by omega), hcap₁]
          rfl
        · have hbelow : dfsLoop h f a (entry a c) (depth + 1) k₁
              = .ok (k₁.pushAll (records h (depth + 2) c)) :=
            dfsLoop_eq hrep hc hkids' hfit (by omega)
          set k₂ := k₁.pushAll (records h (depth + 2) c) with hk₂
          have hnr₂ : k₂.nr = k₁.nr + c.size := by rw [hk₂, Ker.pushAll_nr, length_records]
          have hcap₂ : k₂.cap = k.cap := by rw [hk₂, Ker.pushAll_cap, hcap₁]
          have hrest : dfsLoop h (f + 1) root (entry root r) depth k₂
              = .error (.outOfBounds k₂.cap) :=
            ihr hr hroots' (by omega) (by omega) (by omega)
          rw [hbelow, ← hcap₂, ← hrest]
          rfl
      · rw [dfsPtree_full (by omega)]
        rfl

lemma ProcessTree.dfsPtree_overflow (tree : ProcessTree h initTask) (hnr : k.nr = 0)
    (hcap : k.cap < tree.order.length) {fuel : ℕ} (hfuel : 2 * tree.order.length ≤ fuel) :
    dfsPtree h fuel initTask 0 k = .error (.outOfBounds k.cap) := by
  have hsize : tree.order.length = tree.below.size + 1 := by
    simp [order, forest, Forest.size]
  have hkids : tree.kids initTask = [] ++ tree.below.roots := tree.kids_init
  obtain ⟨f, rfl⟩ : ∃ f, fuel = f + 1 := ⟨fuel - 1, by omega⟩
  rcases Nat.lt_or_ge k.nr k.cap with hroom | hfull
  · rw [dfsPtree_eq_loop tree.represents tree.kids_init hroom]
    rw [dfsLoop_overflow tree.represents tree.shape hkids ?_ ?_ (by omega), Ker.push_cap]
    · rw [Ker.push_nr, Ker.push_cap]
      omega
    · rw [Ker.push_nr, Ker.push_cap]
      omega
  · exact dfsPtree_full (by omega) initTask f 0

/-! ## The version without depth -/

/-- The record with the depth forgotten. -/
def Prinfo.flat (p : Prinfo) : Prinfo := { p with depth := 0 }

/-- The buffer with the depths forgotten. -/
def Ker.flat (k : Ker) : Ker := { k with buf := Prinfo.flat ∘ k.buf }

/-- One visit of the first version is one of the second with the depth forgotten. -/
lemma visit_flat (t : T) (depth : ℕ) (k : Ker) :
    getPrinfo h t k.nr k.flat
      = (k.write k.nr { k.buf k.nr with depth := depth } >>= getPrinfo h t k.nr).map Ker.flat := by
  rcases Nat.lt_or_ge k.nr k.cap with hroom | hfull
  · cases hc : listEmpty h.links (.head t) <;> cases hs : listEmpty h.links (.node t) <;>
      simp [Ker.write, getPrinfo, Ker.flat, Prinfo.flat, Function.comp_update, hroom, hc, hs,
        listEntryChildren, listEntrySibling, bind, Except.bind, Except.map, pure, Except.pure]
  · have hnot : ¬ k.nr < k.cap := Nat.not_lt.mpr hfull
    cases hc : listEmpty h.links (.head t) <;> cases hs : listEmpty h.links (.node t) <;>
      simp [Ker.write, getPrinfo, Ker.flat, hnot, hc, hs, listEntryChildren, listEntrySibling,
        bind, Except.bind, Except.map, pure, Except.pure]

/-- **The first version runs like the second with the depth forgotten.** -/
theorem dfsPtree_flat (h : Heap T) (fuel : ℕ) :
    (∀ t depth k, Problem1.dfsPtree h fuel t k.flat = (dfsPtree h fuel t depth k).map Ker.flat) ∧
    ∀ root pos depth k, Problem1.dfsLoop h fuel root pos k.flat
      = (dfsLoop h fuel root pos depth k).map Ker.flat := by
  induction fuel with
  | zero => exact ⟨fun t depth k => rfl, fun root pos depth k => rfl⟩
  | succ fuel ih =>
      obtain ⟨ihcall, ihloop⟩ := ih
      constructor
      · intro t depth k
        rw [Problem1.dfsPtree, dfsPtree]
        show getPrinfo h t k.nr k.flat >>= _ = _
        rw [visit_flat t depth k]
        show _ = ((k.write k.nr _ >>= fun k' => getPrinfo h t k.nr k' >>= _) : Except _ _).map _
        rw [← bind_assoc]
        cases k.write k.nr { k.buf k.nr with depth := depth } >>= getPrinfo h t k.nr with
        | error e => rfl
        | ok k' => exact ihloop t (h.links.next (.head t)) depth k'
      · intro root pos depth k
        rw [Problem1.dfsLoop, dfsLoop]
        split_ifs with hpos
        · rfl
        · cases listEntrySibling pos with
          | error e => rfl
          | ok t =>
              show Problem1.dfsPtree h fuel t k.flat >>= _ = _
              rw [ihcall t (depth + 1) k]
              show _ = (dfsPtree h fuel t (depth + 1) k >>= _).map _
              cases dfsPtree h fuel t (depth + 1) k with
              | error e => rfl
              | ok k' => exact ihloop root (h.links.next pos) depth k'

/-- The whole call of the first version, from the freshly allocated buffer. -/
lemma dfsPtree_problem1 (fuel : ℕ) :
    Problem1.dfsPtree h fuel initTask Ker.alloc
      = (dfsPtree h fuel initTask 0 Ker.alloc).map Ker.flat :=
  (dfsPtree_flat h fuel).1 initTask 0 Ker.alloc

/-! ## The system call -/

/-- No record outside the kernel buffer is written, and none beyond the 1024-th of the caller's. -/
def InBounds (r : Except Fault Outcome) (u : User) : Prop :=
  (∀ i, r ≠ .error (.outOfBounds i)) ∧ ∀ o, r = .ok o → ∀ i, 1024 ≤ i → o.user.buf i = u.buf i

lemma inBounds_ok {o : Outcome} {u : User} (hbuf : ∀ i, 1024 ≤ i → o.user.buf i = u.buf i) :
    InBounds (.ok o) u := by
  refine ⟨fun i hi => ?_, ?_⟩
  · cases hi
  · rintro o' ho i hi
    obtain rfl := Except.ok.inj ho
    exact hbuf i hi

/-- Nothing is copied beyond the number of records. -/
lemma copyBuf_of_le (env : Env) {u : User} {i : ℕ} (hi : k.nr ≤ i) :
    (copyBuf env k u).buf i = u.buf i :=
  if_neg (by omega)

/-- What both versions of `ptree` do with the outcome of the traversal. -/
def finish (env : Env) (u : User) (r : Except Fault Ker) : Except Fault Outcome :=
  let log := ["call syscall: 356...\n"]
  if !env.kcallocOk || !env.kzallocOk then
    .ok { ret := 1, user := u, log := log ++ ["KERNEL MALLOC FAILED!\n"] }
  else do
    let k ← r
    let u₁ := copyBuf env k u
    if env.copied k.nr < k.nr then
      pure { ret := 1, user := u₁, log := log ++ ["COPY FAILED!\n"] }
    else if !env.copiedNr then
      pure { ret := 1, user := u₁, log := log ++ ["COPY FAILED!\n"] }
    else
      pure { ret := 0, user := copyNr k u₁, log := log }

lemma ptree_eq_finish (env : Env) (fuel : ℕ) (u : User) :
    ptree h initTask env fuel u = finish env u (dfsPtree h fuel initTask 0 Ker.alloc) := rfl

lemma problem1_ptree_eq_finish (env : Env) (fuel : ℕ) (u : User) :
    Problem1.ptree h initTask env fuel u
      = finish env u ((dfsPtree h fuel initTask 0 Ker.alloc).map Ker.flat) := by
  rw [← dfsPtree_problem1]
  rfl

/-- After a traversal that fits, whatever fails or succeeds later stays in bounds. -/
lemma inBounds_finish_ok (env : Env) (u : User) (hnr : k.nr ≤ 1024) :
    InBounds (finish env u (.ok k)) u := by
  have hcopy : ∀ i, 1024 ≤ i → (copyBuf env k u).buf i = u.buf i :=
    fun i hi => copyBuf_of_le env (hnr.trans hi)
  rw [finish]
  by_cases halloc : (!env.kcallocOk || !env.kzallocOk) = true
  · rw [if_pos halloc]
    exact inBounds_ok fun i _ => rfl
  · rw [if_neg halloc]
    show InBounds (if env.copied k.nr < k.nr then _ else if !env.copiedNr then _ else _) u
    split_ifs
    · exact inBounds_ok hcopy
    · exact inBounds_ok hcopy
    · exact inBounds_ok hcopy

/-- After a write past the buffer only a failed allocation would have helped. -/
lemma inBounds_finish_error (env : Env) (u : User) (i : ℕ) :
    InBounds (finish env u (.error (.outOfBounds i))) u
      ↔ env.kcallocOk = false ∨ env.kzallocOk = false := by
  rw [finish]
  by_cases halloc : (!env.kcallocOk || !env.kzallocOk) = true
  · rw [if_pos halloc]
    refine ⟨fun _ => ?_, fun _ => inBounds_ok fun i _ => rfl⟩
    rcases Bool.or_eq_true_iff.mp halloc with h | h
    · exact Or.inl (by simpa using h)
    · exact Or.inr (by simpa using h)
  · rw [if_neg halloc]
    refine ⟨fun hin => absurd rfl (hin.1 i), fun hfail => absurd ?_ halloc⟩
    rcases hfail with h | h <;> simp [h]

/-- The traversal decides whether the call stays in bounds. -/
lemma inBounds_finish_iff (tree : ProcessTree h initTask) (env : Env) {fuel : ℕ}
    (hfuel : 2 * tree.order.length ≤ fuel) (u : User) {f : Ker → Ker} (hf : ∀ k, (f k).nr = k.nr) :
    InBounds (finish env u ((dfsPtree h fuel initTask 0 Ker.alloc).map f)) u ↔
      env.kcallocOk = false ∨ env.kzallocOk = false ∨ tree.order.length ≤ 1024 := by
  rcases Nat.lt_or_ge 1024 tree.order.length with hover | hfit
  · have hdfs := tree.dfsPtree_overflow (k := Ker.alloc) rfl hover hfuel
    have hlen : ¬ tree.order.length ≤ 1024 := by omega
    rw [hdfs]
    simp only [hlen, or_false]
    exact inBounds_finish_error env u 1024
  · rw [tree.dfsPtree_eq (k := Ker.alloc) hfit rfl hfuel]
    refine ⟨fun _ => Or.inr (Or.inr hfit), fun _ => inBounds_finish_ok env u ?_⟩
    rw [hf, Ker.pushAll_nr, tree.records_eq, List.length_map]
    exact (Nat.zero_add _).trans_le hfit

/-- **When `ptree` stays inside its buffer**: exactly when an allocation fails or the tree has at
most 1024 tasks, in both versions. -/
theorem ptree_in_bounds_iff (tree : ProcessTree h initTask) (env : Env) (fuel : ℕ)
    (hfuel : 2 * tree.order.length ≤ fuel) (u : User) :
    (InBounds (ptree h initTask env fuel u) u ↔
      env.kcallocOk = false ∨ env.kzallocOk = false ∨ tree.order.length ≤ 1024) ∧
    (InBounds (Problem1.ptree h initTask env fuel u) u ↔
      env.kcallocOk = false ∨ env.kzallocOk = false ∨ tree.order.length ≤ 1024) := by
  have hid : (dfsPtree h fuel initTask 0 Ker.alloc).map id
      = dfsPtree h fuel initTask 0 Ker.alloc := by
    cases dfsPtree h fuel initTask 0 Ker.alloc <;> rfl
  constructor
  · rw [ptree_eq_finish, ← hid]
    exact inBounds_finish_iff tree env hfuel u fun k => rfl
  · rw [problem1_ptree_eq_finish]
    exact inBounds_finish_iff tree env hfuel u fun k => rfl

theorem ptree_in_bounds_boot :
    InBounds (ptree bootHeap 0 ⟨true, true, id, true⟩ 8 ⟨fun _ => Prinfo.zero, 0⟩)
        ⟨fun _ => Prinfo.zero, 0⟩ ∧
      InBounds (Problem1.ptree bootHeap 0 ⟨true, true, id, true⟩ 8 ⟨fun _ => Prinfo.zero, 0⟩)
        ⟨fun _ => Prinfo.zero, 0⟩ := by
  obtain ⟨hiff, hiff'⟩ := ptree_in_bounds_iff bootTree ⟨true, true, id, true⟩ 8 (by decide)
    ⟨fun _ => Prinfo.zero, 0⟩
  exact ⟨hiff.mpr (by decide), hiff'.mpr (by decide)⟩

/-! ## A tree with one task too many -/

/-- The words of an idle task 0 with the children 1, …, `n`. -/
def wideLinks : ℕ → Links (Node ℕ ℕ)
  | 0 => ⟨id, id⟩
  | n + 1 => listAddTail (wideLinks n) (.node (n + 1)) (.head 0)

def wideKids (n : ℕ) : ℕ → List ℕ :=
  Function.update (fun _ => []) 0 ((List.range n).map (· + 1))

lemma represents_wide (n : ℕ) : Represents (wideLinks n) (wideKids n) := by
  induction n with
  | zero =>
      have hkids : wideKids 0 = fun _ => [] := Function.update_eq_self _ _
      rw [hkids]
      exact represents_init
  | succ n ih =>
      have hnew : ∀ t, n + 1 ∉ wideKids n t := by
        intro t
        rw [wideKids, Function.update_apply]
        split_ifs <;> simp
      have hadd := ih.addTail hnew 0
      have hkids : Function.update (wideKids n) 0 (wideKids n 0 ++ [n + 1]) = wideKids (n + 1) := by
        simp [wideKids, List.range_succ]
      rwa [hkids] at hadd

/-- Tasks without children. -/
def leaves : List ℕ → Forest ℕ
  | [] => .nil
  | a :: l => .cons a .nil (leaves l)

lemma roots_leaves (l : List ℕ) : (leaves l).roots = l := by
  induction l with
  | nil => rfl
  | cons a l ih => rw [leaves, Forest.roots, ih]

lemma size_leaves (l : List ℕ) : (leaves l).size = l.length := by
  induction l with
  | nil => rfl
  | cons a l ih => rw [leaves, Forest.size, ih, Forest.size, List.length_cons]; omega

lemma shape_leaves {l : List ℕ} {kids : ℕ → List ℕ} (hkids : ∀ a ∈ l, kids a = []) :
    (leaves l).Shape kids := by
  induction l with
  | nil => trivial
  | cons a l ih =>
      exact ⟨hkids a List.mem_cons_self, trivial,
        ih fun b hb => hkids b (List.mem_cons_of_mem a hb)⟩

def wideHeap (n : ℕ) : Heap ℕ where
  links := wideLinks n
  task t := { parent := some 0, pid := t, state := 0, uid := 0, comm := "task" }

def wideTree (n : ℕ) : ProcessTree (wideHeap n) 0 where
  kids := wideKids n
  below := leaves ((List.range n).map (· + 1))
  represents := represents_wide n
  kids_init := by rw [roots_leaves, wideKids, Function.update_self]
  shape := by
    refine shape_leaves fun a ha => ?_
    obtain ⟨i, -, rfl⟩ := List.mem_map.mp ha
    exact Function.update_of_ne (Nat.succ_ne_zero i) _ _
  init_notMem := by
    intro t
    rw [wideKids, Function.update_apply]
    split_ifs <;> simp

lemma length_wideTree (n : ℕ) : (wideTree n).order.length = n + 1 := by
  simp [ProcessTree.order, ProcessTree.forest, wideTree, Forest.size, size_leaves]

/-- With 1024 children of the idle task the record 1024 is written. -/
theorem ptree_out_of_bounds :
    ¬ InBounds (ptree (wideHeap 1024) 0 ⟨true, true, id, true⟩ 2050 ⟨fun _ => Prinfo.zero, 0⟩)
      ⟨fun _ => Prinfo.zero, 0⟩ := by
  have hlen := length_wideTree 1024
  have hdfs : dfsPtree (wideHeap 1024) 2050 0 0 Ker.alloc = .error (.outOfBounds 1024) :=
    (wideTree 1024).dfsPtree_overflow rfl (by rw [hlen]; decide) (by rw [hlen])
  rw [ptree_eq_finish, hdfs, inBounds_finish_error]
  decide

end Ptree
