import OsPrj.Lib.Forest

/-!
# Walking a tree without a stack

A walk that goes from a node to its first child, to its next sibling or back to its parent, and
keeps nothing but the place it has come to.

* `Forest.events` — what a depth-first walk does: it enters each node in **preorder** and leaves it
  in **postorder**.
* `Cursor.next` — one move of the walk, from the three words at a node.
* `Cursor.walk_tree` — **the moves perform the events of the tree**, one after the other, and stop.
-/

/-- A walk enters a node, or leaves it for the last time. -/
inductive Event (α : Type) where
  | enter (a : α)
  | leave (a : α)

namespace Event

variable {α : Type}

/-- The node that is entered. -/
def entered : Event α → Option α
  | enter a => some a
  | leave _ => none

/-- The node that is left. -/
def left : Event α → Option α
  | enter _ => none
  | leave a => some a

@[simp] lemma entered_enter (a : α) : (enter a).entered = some a := rfl

@[simp] lemma entered_leave (a : α) : (leave a).entered = none := rfl

@[simp] lemma left_enter (a : α) : (enter a).left = none := rfl

@[simp] lemma left_leave (a : α) : (leave a).left = some a := rfl

end Event

namespace Forest

variable {α : Type}

/-- A depth-first walk. -/
def events : Forest α → List (Event α)
  | nil => []
  | cons a c r => .enter a :: (c.events ++ .leave a :: r.events)

/-- The nodes in depth-first postorder. -/
def postorder : Forest α → List α
  | nil => []
  | cons a c r => c.postorder ++ a :: r.postorder

@[simp] lemma length_events (F : Forest α) : F.events.length = 2 * F.size := by
  induction F with
  | nil => rfl
  | cons a c r ihc ihr =>
      simp only [events, size, List.length_cons, List.length_append, ihc, ihr]
      omega

/-- **The nodes are entered in preorder.** -/
theorem filterMap_entered_events (F : Forest α) :
    F.events.filterMap Event.entered = F.preorder := by
  induction F with
  | nil => rfl
  | cons a c r ihc ihr => simp [events, preorder, List.filterMap_cons, ihc, ihr]

/-- **The nodes are left in postorder.** -/
theorem filterMap_left_events (F : Forest α) : F.events.filterMap Event.left = F.postorder := by
  induction F with
  | nil => rfl
  | cons a c r ihc ihr => simp [events, postorder, List.filterMap_cons, ihc, ihr]

end Forest

/-- The words that a walk reads at a node. -/
structure Cursor (α : Type) where
  firstChild : α → Option α
  nextSibling : α → Option α
  parent : α → Option α

namespace Cursor

open Forest

variable {α : Type} [DecidableEq α] (C : Cursor α) (root : α)

/-- The next event of a walk of the tree below `root`. -/
def next : Event α → Option (Event α)
  | .enter a => some ((C.firstChild a).elim (.leave a) .enter)
  | .leave a =>
      if a = root then none
      else (C.parent a).map fun p => (C.nextSibling a).elim (.leave p) .enter

/-- The first `n` events from `e` on. -/
def walk : ℕ → Event α → List (Event α)
  | 0, _ => []
  | n + 1, e => e :: (C.next root e).elim [] (walk n)

/-- The words at the nodes of `S` are those of the tree that `kids` describes. -/
structure Agrees (kids : α → List α) (S : Set α) : Prop where
  firstChild : ∀ a ∈ S, C.firstChild a = (kids a).head?
  nextSibling : ∀ p ∈ S, ∀ l₁ a l₂, kids p = l₁ ++ a :: l₂ → C.nextSibling a = l₂.head?
  parent : ∀ p ∈ S, ∀ a ∈ kids p, C.parent a = some p

variable {C root} {kids : α → List α} {S : Set α}

/-- Where a walk goes on with the forest `F` below `p`: at its first root, or back at `p`. -/
def resume (F : Forest α) (p : α) : Event α := F.roots.head?.elim (.leave p) .enter

/-- The walk of a forest of last children of `p` comes back to `p`. -/
lemma walk_forest (hC : C.Agrees kids S) {p : α} (hp : p ∈ S) (n : ℕ) {F : Forest α} {l₁ : List α}
    (hkids : kids p = l₁ ++ F.roots) (hF : F.Shape kids) (hS : ∀ a ∈ F.preorder, a ∈ S)
    (hroot : root ∉ F.preorder) :
    C.walk root (n + 2 * F.size) (resume F p) = F.events ++ C.walk root n (.leave p) := by
  induction F generalizing p n l₁ with
  | nil => rfl
  | cons a c r ihc ihr =>
      rcases hF with ⟨hka, hc, hr⟩
      have ha : a ∈ S := hS a List.mem_cons_self
      have hne : a ≠ root := fun heq => hroot (heq ▸ List.mem_cons_self)
      have hSc : ∀ b ∈ c.preorder, b ∈ S := fun b hb =>
        hS b (List.mem_cons_of_mem a (List.mem_append_left _ hb))
      have hSr : ∀ b ∈ r.preorder, b ∈ S := fun b hb =>
        hS b (List.mem_cons_of_mem a (List.mem_append_right _ hb))
      have hrc : root ∉ c.preorder := fun hb =>
        hroot (List.mem_cons_of_mem a (List.mem_append_left _ hb))
      have hrr : root ∉ r.preorder := fun hb =>
        hroot (List.mem_cons_of_mem a (List.mem_append_right _ hb))
      have hlen : n + 2 * (cons a c r).size = (n + 2 * r.size + 1) + 2 * c.size + 1 := by
        rw [size]
        omega
      have hdown : C.next root (.enter a) = some (resume c a) := by
        rw [next, hC.firstChild a ha, hka]
        rfl
      have hup : C.next root (.leave a) = some (resume r p) := by
        have hpar : C.parent a = some p := hC.parent p hp a (by rw [hkids]; simp [roots])
        rw [next, if_neg hne, hpar, hC.nextSibling p hp l₁ a r.roots hkids]
        rfl
      calc C.walk root (n + 2 * (cons a c r).size) (.enter a)
          = .enter a :: C.walk root ((n + 2 * r.size + 1) + 2 * c.size) (resume c a) := by
            rw [hlen, walk, hdown]
            rfl
        _ = .enter a :: (c.events ++ C.walk root (n + 2 * r.size + 1) (.leave a)) := by
            rw [ihc ha _ (show kids a = [] ++ c.roots from hka) hc hSc hrc]
        _ = .enter a :: (c.events ++ .leave a :: C.walk root (n + 2 * r.size) (resume r p)) := by
            rw [walk, hup]
            rfl
        _ = (cons a c r).events ++ C.walk root n (.leave p) := by
            have hkids' : kids p = (l₁ ++ [a]) ++ r.roots := by
              rw [hkids, roots, List.append_assoc]
              rfl
            rw [ihr hp n hkids' hr hSr hrr]
            simp [events]

/-- **The moves perform the events of the tree**: they enter every node in preorder, leave every
node in postorder, and stop when they leave the root. -/
theorem walk_tree (hC : C.Agrees kids S) {F : Forest α} (hkids : kids root = F.roots)
    (hF : F.Shape kids) (hroot : root ∈ S) (hS : ∀ a ∈ F.preorder, a ∈ S)
    (hnot : root ∉ F.preorder) (n : ℕ) :
    C.walk root (n + 2 * (cons root F nil).size) (.enter root) = (cons root F nil).events := by
  have hlen : n + 2 * (cons root F nil).size = (n + 1) + 2 * F.size + 1 := by
    rw [size, size]
    omega
  have hdown : C.next root (.enter root) = some (resume F root) := by
    rw [next, hC.firstChild root hroot, hkids]
    rfl
  have hstop : C.next root (.leave root) = none := by
    rw [next, if_pos rfl]
  rw [hlen, walk, hdown]
  show .enter root :: C.walk root ((n + 1) + 2 * F.size) (resume F root) = _
  have hkids' : kids root = [] ++ F.roots := hkids
  rw [walk_forest hC hroot (n + 1) hkids' hF hS hnot, walk, hstop]
  simp [events]

end Cursor
