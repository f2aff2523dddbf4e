import Mathlib
import OsPrj.Ptree.Preorder

/-!
# The printed tree

`Prj1/problem2/jni/syscall_ptree.c`: the program that calls `ptree` and prints each record,
indented by its depth.

* `listing_injective` — the records can be read back from the text, when no name disturbs the
  layout.
* `dfs_ptree_injective` — the pids and depths that `dfs_ptree` stores determine **the ordered
  tree**, and so does the listing, under that condition.
* `dfs_ptree_same_listing` — without it two trees can have the same listing.
-/

namespace Ptree

open ListHead

/-! ## The program -/

/-- The line that `printk_prinfo` prints after the indentation. -/
def prinfoLine (pf : Prinfo) : String :=
  pf.comm ++ "," ++ pf.pid.repr ++ "," ++ pf.state.repr ++ "," ++ pf.parentPid.repr ++ "," ++
    pf.firstChildPid.repr ++ "," ++ pf.nextSiblingPid.repr ++ "," ++ pf.uid.repr ++ "\n"

/-- What `printk_prinfo(pf)` prints. -/
def printkPrinfo (pf : Prinfo) : String :=
  String.join (List.replicate pf.depth "\t") ++ prinfoLine pf

/-- What the loop of `main` over the records prints. -/
def listing (rs : List Prinfo) : String := String.join (rs.map printkPrinfo)

/-- The records in the buffer. -/
def Ker.filled (k : Ker) : List Prinfo := (List.range k.nr).map k.buf

/-- The process tree with each task under its pid. -/
def ProcessTree.pids {T : Type} [DecidableEq T] {h : Heap T} {initTask : T}
    (tree : ProcessTree h initTask) : Forest ℤ :=
  tree.forest.map fun t => (h.task t).pid

/-! ## Splitting at separators -/

section Split

variable {β : Type} {P : β → Prop}

/-- Two lists split at their first separator. -/
lemma split_first {w w' r r' : List β} {x x' : β} (hw : ∀ y ∈ w, ¬ P y) (hw' : ∀ y ∈ w', ¬ P y)
    (hx : P x) (hx' : P x') (heq : w ++ x :: r = w' ++ x' :: r') : w = w' ∧ x = x' ∧ r = r' := by
  induction w generalizing w' with
  | nil =>
      cases w' with
      | nil =>
          obtain ⟨rfl, rfl⟩ := List.cons.inj heq
          exact ⟨rfl, rfl, rfl⟩
      | cons y w' =>
          obtain ⟨rfl, -⟩ := List.cons.inj heq
          exact absurd hx (hw' x List.mem_cons_self)
  | cons y w ih =>
      cases w' with
      | nil =>
          obtain ⟨rfl, -⟩ := List.cons.inj heq
          exact absurd hx' (hw y List.mem_cons_self)
      | cons z w' =>
          rw [List.cons_append, List.cons_append] at heq
          obtain ⟨rfl, htail⟩ := List.cons.inj heq
          obtain ⟨rfl, rfl, rfl⟩ := ih (fun y hy => hw y (List.mem_cons_of_mem _ hy))
            (fun y hy => hw' y (List.mem_cons_of_mem _ hy)) htail
          exact ⟨rfl, rfl, rfl⟩

/-- Two lists split at their last separator. -/
lemma split_last {w w' r r' : List β} {x : β} (hr : x ∉ r) (hr' : x ∉ r')
    (heq : w ++ x :: r = w' ++ x :: r') : w = w' ∧ r = r' := by
  have hrev : r.reverse ++ x :: w.reverse = r'.reverse ++ x :: w'.reverse := by
    simpa using congrArg List.reverse heq
  have hne : ∀ {l : List β}, x ∉ l → ∀ y ∈ l.reverse, ¬ y = x := by
    rintro l hl y hy rfl
    exact hl (List.mem_reverse.mp hy)
  obtain ⟨hr, -, hw⟩ := split_first (P := (· = x)) (hne hr) (hne hr') rfl rfl hrev
  exact ⟨List.reverse_injective hw, List.reverse_injective hr⟩

/-- What is printed for an entry ends at its first separator. -/
def Ended (P : β → Prop) (b : List β) : Prop := ∃ w x, b = w ++ [x] ∧ P x ∧ ∀ y ∈ w, ¬ P y

/-- Entries that each end at a separator can be read back from the sequence when they can one by
one. -/
lemma eq_of_flatMap_eq {α : Type} {f : α → List β} {l l' : List α}
    (hl : ∀ a ∈ l, Ended P (f a)) (hl' : ∀ a ∈ l', Ended P (f a))
    (hinj : ∀ a ∈ l, ∀ a' ∈ l', f a = f a' → a = a') (heq : l.flatMap f = l'.flatMap f) :
    l = l' := by
  have hne : ∀ {a : α}, Ended P (f a) → f a ≠ [] := by
    rintro a ⟨w, x, hwx, -⟩ hnil
    rw [hwx] at hnil
    exact absurd hnil (by simp)
  induction l generalizing l' with
  | nil =>
      cases l' with
      | nil => rfl
      | cons a' l' =>
          have hnil : f a' = [] := by
            rw [List.flatMap_nil, List.flatMap_cons] at heq
            exact (List.append_eq_nil_iff.mp heq.symm).1
          exact absurd hnil (hne (hl' a' List.mem_cons_self))
  | cons a l ih =>
      cases l' with
      | nil =>
          have hnil : f a = [] := by
            rw [List.flatMap_nil, List.flatMap_cons] at heq
            exact (List.append_eq_nil_iff.mp heq).1
          exact absurd hnil (hne (hl a List.mem_cons_self))
      | cons a' l' =>
          obtain ⟨w, x, hwx, hx, hw⟩ := hl a List.mem_cons_self
          obtain ⟨w', x', hwx', hx', hw'⟩ := hl' a' List.mem_cons_self
          rw [List.flatMap_cons, List.flatMap_cons, hwx, hwx', List.append_assoc,
            List.append_assoc] at heq
          obtain ⟨rfl, rfl, hrest⟩ := split_first hw hw' hx hx' heq
          have htail := ih (fun a ha => hl a (List.mem_cons_of_mem _ ha))
            (fun a ha => hl' a (List.mem_cons_of_mem _ ha))
            (fun a ha a' ha' => hinj a (List.mem_cons_of_mem _ ha) a' (List.mem_cons_of_mem _ ha'))
            hrest
          rw [htail, hinj a List.mem_cons_self a' List.mem_cons_self (hwx.trans hwx'.symm)]

end Split

/-! ## Reading a line back -/

lemma digit_or_minus_of_mem_repr {z : ℤ} {c : Char} (hc : c ∈ z.repr.toList) :
    c.isDigit = true ∨ c = '-' := by
  have hdigit : ∀ n : ℕ, c ∈ n.repr.toList → c.isDigit = true := by
    intro n hn
    rw [Nat.toList_repr] at hn
    exact Nat.isDigit_of_mem_toDigits (by decide) (by decide) hn
  rw [Int.repr_eq_if] at hc
  split_ifs at hc with hz
  · exact Or.inl (hdigit _ hc)
  · rw [String.toList_append] at hc
    rcases List.mem_append.mp hc with hc | hc
    · exact Or.inr (by simpa using hc)
    · exact Or.inl (hdigit _ hc)

lemma notMem_repr {c : Char} (hdigit : c.isDigit = false) (hminus : c ≠ '-') (z : ℤ) :
    c ∉ z.repr.toList := by
  intro hc
  rcases digit_or_minus_of_mem_repr hc with h | h
  · exact absurd (hdigit.symm.trans h) Bool.false_ne_true
  · exact hminus h

/-- A number after the last comma is read back. -/
lemma split_number {w w' : List Char} {z z' : ℤ}
    (heq : w ++ ',' :: z.repr.toList = w' ++ ',' :: z'.repr.toList) : w = w' ∧ z = z' := by
  have hcomma := notMem_repr (c := ',') (by decide) (by decide)
  obtain ⟨hw, hz⟩ := split_last (hcomma z) (hcomma z') heq
  exact ⟨hw, Int.repr_injective (String.toList_injective hz)⟩

/-- The fields of a line, the newline apart. -/
def fieldChars (pf : Prinfo) : List Char :=
  (((((pf.comm.toList ++ ',' :: pf.pid.repr.toList) ++ ',' :: pf.state.repr.toList) ++
    ',' :: pf.parentPid.repr.toList) ++ ',' :: pf.firstChildPid.repr.toList) ++
    ',' :: pf.nextSiblingPid.repr.toList) ++ ',' :: pf.uid.repr.toList

lemma toList_prinfoLine (pf : Prinfo) : (prinfoLine pf).toList = fieldChars pf ++ ['\n'] := by
  simp [prinfoLine, fieldChars]

lemma fieldChars_injective {p q : Prinfo} (heq : fieldChars p = fieldChars q) :
    p = { q with depth := p.depth } := by
  obtain ⟨heq, huid⟩ := split_number heq
  obtain ⟨heq, hsibling⟩ := split_number heq
  obtain ⟨heq, hchild⟩ := split_number heq
  obtain ⟨heq, hparent⟩ := split_number heq
  obtain ⟨heq, hstate⟩ := split_number heq
  obtain ⟨heq, hpid⟩ := split_number heq
  have hcomm : p.comm = q.comm := String.toList_injective heq
  rw [← huid, ← hsibling, ← hchild, ← hparent, ← hstate, ← hpid, ← hcomm]

/-! ## The listing

A name may hold any character, also those that lay out the listing. -/

/-- A name that cannot be taken for a part of the layout. -/
def PlainName (name : String) : Prop := '\n' ∉ name.toList ∧ name.toList.head? ≠ some '\t'

instance (name : String) : Decidable (PlainName name) := inferInstanceAs (Decidable (_ ∧ _))

/-- The characters of a record's entry, up to the newline. -/
def entryChars (pf : Prinfo) : List Char := List.replicate pf.depth '\t' ++ fieldChars pf

lemma toList_printkPrinfo (pf : Prinfo) : (printkPrinfo pf).toList = entryChars pf ++ ['\n'] := by
  have htabs : (List.replicate pf.depth "\t").flatMap String.toList
      = List.replicate pf.depth '\t' := by
    induction pf.depth with
    | zero => rfl
    | succ n ih =>
        rw [List.replicate_succ, List.flatMap_cons, ih]
        rfl
  rw [printkPrinfo, String.toList_append, String.toList_join, htabs, toList_prinfoLine, entryChars,
    List.append_assoc]

lemma toList_listing (rs : List Prinfo) :
    (listing rs).toList = rs.flatMap fun r => entryChars r ++ ['\n'] := by
  rw [listing, String.toList_join, List.flatMap_map]
  exact congrArg (fun f => rs.flatMap f) (funext toList_printkPrinfo)

lemma newline_notMem_entryChars {pf : Prinfo} (hname : PlainName pf.comm) :
    '\n' ∉ entryChars pf := by
  have hnewline := notMem_repr (c := '\n') (by decide) (by decide)
  simp [entryChars, fieldChars, hnewline, hname.1]

/-- After the tabs of the indentation comes something else. -/
lemma exists_fieldChars_cons {pf : Prinfo} (hname : PlainName pf.comm) :
    ∃ x l, fieldChars pf = x :: l ∧ x ≠ '\t' := by
  cases hcomm : pf.comm.toList with
  | nil => exact ⟨',', _, by rw [fieldChars, hcomm]; rfl, by decide⟩
  | cons x l =>
      refine ⟨x, _, by rw [fieldChars, hcomm]; rfl, ?_⟩
      rintro rfl
      exact hname.2 (by rw [hcomm]; rfl)

lemma entryChars_injective {p q : Prinfo} (hp : PlainName p.comm) (hq : PlainName q.comm)
    (heq : entryChars p = entryChars q) : p = q := by
  obtain ⟨x, l, hpx, hx⟩ := exists_fieldChars_cons hp
  obtain ⟨x', l', hqx, hx'⟩ := exists_fieldChars_cons hq
  have htab : ∀ n : ℕ, ∀ y ∈ List.replicate n '\t', ¬ y ≠ '\t' :=
    fun n y hy => not_not.mpr (List.eq_of_mem_replicate hy)
  rw [entryChars, entryChars, hpx, hqx] at heq
  obtain ⟨htabs, rfl, rfl⟩ := split_first (P := (· ≠ '\t')) (htab p.depth) (htab q.depth) hx hx' heq
  have hdepth : p.depth = q.depth := by
    simpa using congrArg List.length htabs
  rw [fieldChars_injective (hpx.trans hqx.symm), hdepth]

/-- **The records are read back from the listing**, when no name disturbs the layout. -/
theorem listing_injective {rs rs' : List Prinfo} (hrs : ∀ r ∈ rs, PlainName r.comm)
    (hrs' : ∀ r ∈ rs', PlainName r.comm) (heq : listing rs = listing rs') : rs = rs' := by
  have hended : ∀ {l : List Prinfo}, (∀ r ∈ l, PlainName r.comm) →
      ∀ r ∈ l, Ended (· = '\n') (entryChars r ++ ['\n']) := by
    intro l hl r hr
    refine ⟨entryChars r, '\n', rfl, rfl, ?_⟩
    rintro y hy rfl
    exact newline_notMem_entryChars (hl r hr) hy
  have htext := congrArg String.toList heq
  rw [toList_listing, toList_listing] at htext
  refine eq_of_flatMap_eq (hended hrs) (hended hrs') (fun r hr r' hr' hchars => ?_) htext
  exact entryChars_injective (hrs r hr) (hrs' r' hr') (List.append_cancel_right hchars)

/-! ## The tree behind the listing -/

lemma filled_pushAll (l : List Prinfo) : (Ker.alloc.pushAll l).filled = l := by
  have hnr : (Ker.alloc.pushAll l).nr = l.length := by
    rw [Ker.pushAll_nr]
    exact Nat.zero_add _
  have hlen : (Ker.alloc.pushAll l).filled.length = l.length := by
    rw [Ker.filled, List.length_map, List.length_range, hnr]
  refine List.ext_getElem hlen fun i hi hi' => ?_
  have hbuf := Ker.pushAll_buf Ker.alloc l hi'
  rw [show Ker.alloc.nr = 0 from rfl, Nat.zero_add] at hbuf
  simpa [Ker.filled] using hbuf

lemma map_records {T : Type} [DecidableEq T] (h : Heap T) (F : Forest T) (depth : ℕ) :
    (records h depth F).map (fun r => (r.pid, r.depth))
      = (F.map fun t => (h.task t).pid).depths depth := by
  induction F generalizing depth with
  | nil => rfl
  | cons a c r ihc ihr => simp [records, Forest.map, Forest.depths, record, ihc, ihr]

/-- The names in the records are those of the tasks. -/
lemma exists_of_mem_records {T : Type} [DecidableEq T] {h : Heap T} {F : Forest T} {depth : ℕ}
    {r : Prinfo} (hr : r ∈ records h depth F) : ∃ t ∈ F.preorder, r.comm = (h.task t).comm := by
  induction F generalizing depth with
  | nil => exact absurd hr List.not_mem_nil
  | cons a c rest ihc ihr =>
      rw [records, List.mem_cons, List.mem_append] at hr
      rcases hr with rfl | hr | hr
      · exact ⟨a, by simp [Forest.preorder], rfl⟩
      · rcases ihc hr with ⟨t, ht, hcomm⟩
        exact ⟨t, by simp [Forest.preorder, ht], hcomm⟩
      · rcases ihr hr with ⟨t, ht, hcomm⟩
        exact ⟨t, by simp [Forest.preorder, ht], hcomm⟩

lemma ProcessTree.plain_records {T : Type} [DecidableEq T] {h : Heap T} {initTask : T}
    (tree : ProcessTree h initTask) (hplain : ∀ t ∈ tree.order, PlainName (h.task t).comm) :
    ∀ r ∈ records h 0 tree.forest, PlainName r.comm := by
  intro r hr
  rcases exists_of_mem_records hr with ⟨t, ht, hcomm⟩
  rw [hcomm]
  exact hplain t ht

/-- **The printed tree loses no structure**: for any two process trees that fit into the buffer
`dfs_ptree` ends, and when it stores the same sequence of pids and depths for both, the trees are
equal as ordered trees of pids.  The same follows when the program prints the same for both, unless
a name starts with a tab or holds a newline. -/
theorem dfs_ptree_injective {T T' : Type} [DecidableEq T] [DecidableEq T'] {h : Heap T}
    {h' : Heap T'} {initTask : T} {initTask' : T'} (tree : ProcessTree h initTask)
    (tree' : ProcessTree h' initTask') (hsize : tree.order.length ≤ 1024)
    (hsize' : tree'.order.length ≤ 1024) (fuel fuel' : ℕ) (hfuel : 2 * tree.order.length ≤ fuel)
    (hfuel' : 2 * tree'.order.length ≤ fuel') :
    ∃ k k', dfsPtree h fuel initTask 0 Ker.alloc = .ok k ∧
      dfsPtree h' fuel' initTask' 0 Ker.alloc = .ok k' ∧
      (k.filled.map (fun r => (r.pid, r.depth)) = k'.filled.map (fun r => (r.pid, r.depth)) →
        tree.pids = tree'.pids) ∧
      ((∀ t ∈ tree.order, PlainName (h.task t).comm) →
        (∀ t ∈ tree'.order, PlainName (h'.task t).comm) →
        listing k.filled = listing k'.filled → tree.pids = tree'.pids) := by
  have hdfs := tree.dfsPtree_eq (k := Ker.alloc) hsize rfl hfuel
  have hdfs' := tree'.dfsPtree_eq (k := Ker.alloc) hsize' rfl hfuel'
  refine ⟨_, _, hdfs, hdfs', ?_⟩
  rw [filled_pushAll, filled_pushAll]
  have hpairs : (records h 0 tree.forest).map (fun r => (r.pid, r.depth))
      = (records h' 0 tree'.forest).map (fun r => (r.pid, r.depth)) → tree.pids = tree'.pids := by
    intro heq
    rw [map_records, map_records] at heq
    exact Forest.depths_injective 0 heq
  refine ⟨hpairs, fun hplain hplain' heq => ?_⟩
  exact hpairs (by
    rw [listing_injective (tree.plain_records hplain) (tree'.plain_records hplain') heq])

/-- Two trees of four tasks that differ in the place of one task print different listings. -/
theorem dfs_ptree_injective_boot :
    ∃ k k', dfsPtree bootHeap 8 0 0 Ker.alloc = .ok k ∧
      dfsPtree flatHeap 8 0 0 Ker.alloc = .ok k' ∧ listing k.filled ≠ listing k'.filled := by
  obtain ⟨k, k', hk, hk', -, hlisting⟩ :=
    dfs_ptree_injective bootTree flatTree (by decide) (by decide) 8 8 (by decide) (by decide)
  refine ⟨k, k', hk, hk', fun heq => ?_⟩
  have hplain : ∀ t, PlainName (bootHeap.task t).comm := by decide
  have hpids : bootTree.pids.depths 0 = flatTree.pids.depths 0 := by
    rw [hlisting (fun t _ => hplain t) (fun t _ => hplain t) heq]
  exact absurd hpids (by decide)

/-- In `0[1[2, 3]]` and `0[1[2], 3]` the tab that starts a name is printed where one more step of
depth would be. -/
theorem dfs_ptree_same_listing :
    ∃ k k', dfsPtree nestedHeap 8 0 0 Ker.alloc = .ok k ∧
      dfsPtree tabHeap 8 0 0 Ker.alloc = .ok k' ∧ listing k.filled = listing k'.filled ∧
      nestedTree.pids ≠ tabTree.pids := by
  have hdfs : dfsPtree nestedHeap 8 0 0 Ker.alloc = .ok _ :=
    nestedTree.dfsPtree_eq (k := Ker.alloc) (by decide) rfl (by decide)
  have hdfs' : dfsPtree tabHeap 8 0 0 Ker.alloc = .ok _ :=
    tabTree.dfsPtree_eq (k := Ker.alloc) (by decide) rfl (by decide)
  refine ⟨_, _, hdfs, hdfs', ?_, fun heq => ?_⟩
  · rw [filled_pushAll, filled_pushAll]
    decide +kernel
  · have hpids : nestedTree.pids.depths 0 = tabTree.pids.depths 0 := by rw [heq]
    exact absurd hpids (by decide)

end Ptree
