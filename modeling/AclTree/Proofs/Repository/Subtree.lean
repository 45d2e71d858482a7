/-
The nodes of a subtree as a list. `traversal` flattens what hangs below a node
by accepted types, each node before its children's subtrees or after them;
`traversal_eq` is its recursion. On a tree it lists the nodes that accepted
types lead to (`mem_traversal`), each of them once (`nodup_traversal`) and on
the right side of those above it (`pairwise_traversal`).
-/
import AclTree.Engine.Subtree
import AclTree.Proofs.Repository.Tree

namespace AclTree

namespace Engine.Order

/-- A node and what is below it, in the order. -/
def arrange : Order → String → List String → List String
  | parentFirst, path, below => path :: below
  | childrenFirst, path, below => below ++ [path]

/-- The first node is to be visited no later than the second: it is above it, or below it. -/
def Precedes (r : Repository) : Order → String → String → Prop
  | parentFirst, a, b => r.Below a b
  | childrenFirst, a, b => r.Below b a

@[simp] theorem mem_arrange {order : Order} {path q : String} {below : List String} :
    q ∈ order.arrange path below ↔ q = path ∨ q ∈ below := by
  cases order <;> simp [arrange, or_comm]

end Engine.Order

namespace Repository

open Engine (Order)

variable {r : Repository} {accepts : String → Bool} {order : Order} {path q : String}

/-- The children whose types are accepted, in their order. -/
def accepted (r : Repository) (accepts : String → Bool) (path : String) : List String :=
  (r.childrenOf path).filter fun child => (r.kindOf child).any accepts

/-- The node is `top`, whatever its type, or the way down to it leads through nodes of accepted
types only, itself included. -/
def Reaches (r : Repository) (accepts : String → Bool) (top path : String) : Prop :=
  Relation.ReflTransGen
    (fun parent child => r.parentOf child = some parent ∧ (r.kindOf child).any accepts = true) top path

/-- A traversal of as many levels as `depth` says. -/
def levelsBelow (r : Repository) (order : Order) (accepts : String → Bool) :
    Nat → String → List String
  | 0, _ => []
  | depth + 1, path =>
    order.arrange path ((r.accepted accepts path).flatMap (r.levelsBelow order accepts depth))

/-- The nodes that accepted types lead to from a node, in the order in which a walk visits them. A
tree has fewer levels than nodes. -/
def traversal (r : Repository) (order : Order) (accepts : String → Bool) (path : String) :
    List String :=
  r.levelsBelow order accepts r.size path

/-! ## The way down -/

theorem Reaches.below (h : r.Reaches accepts path q) : r.Below path q :=
  Relation.ReflTransGen.mono (fun _ _ hl => hl.1) _ _ h

namespace IsTree

variable (h : r.IsTree)
include h

theorem mem_accepted {child : String} :
    child ∈ r.accepted accepts path ↔
      r.parentOf child = some path ∧ (r.kindOf child).any accepts = true := by
  unfold accepted
  rw [List.mem_filter, h.mem_children]

theorem nodup_accepted : (r.accepted accepts path).Nodup := (h.nodup path).filter _

theorem deeper_accepted {child : String} (hc : child ∈ r.accepted accepts path) :
    r.deeper child < r.deeper path := h.deeper_lt (h.mem_accepted.1 hc).1

/-! ## The recursion -/

/-- Levels that there are no nodes on make no difference. -/
theorem levelsBelow_eq {m n : Nat} (hm : r.deeper path < m) (hn : r.deeper path < n) :
    r.levelsBelow order accepts m path = r.levelsBelow order accepts n path := by
  induction m generalizing n path with
  | zero => exact absurd hm (Nat.not_lt_zero _)
  | succ m ih =>
    cases n with
    | zero => exact absurd hn (Nat.not_lt_zero _)
    | succ n =>
      refine congrArg (order.arrange path) (List.flatMap_congr fun child hc => ?_)
      have hlt := h.deeper_accepted hc
      exact ih (by omega) (by omega)

/-- **The recursion**: a node and, in the order of the children, their traversals. -/
theorem traversal_eq (order : Order) (accepts : String → Bool) (path : String) :
    r.traversal order accepts path =
      order.arrange path ((r.accepted accepts path).flatMap (r.traversal order accepts)) := by
  have hlt := h.deeper_lt_size path
  have hstep : r.traversal order accepts path = r.levelsBelow order accepts (r.size + 1) path :=
    h.levelsBelow_eq hlt (by omega)
  exact hstep

/-- Induction from the children to the parent. -/
theorem childrenInduction {P : String → Prop}
    (step : ∀ path, (∀ child, r.parentOf child = some path → P child) → P path) (path : String) :
    P path := by
  induction hn : r.deeper path using Nat.strongRecOn generalizing path with
  | ind n ih =>
    subst hn
    exact step path fun child hp => ih _ (h.deeper_lt hp) child rfl

/-! ## What is listed -/

theorem mem_traversal : q ∈ r.traversal order accepts path ↔ r.Reaches accepts path q := by
  induction path using h.childrenInduction with
  | step path ih =>
    rw [h.traversal_eq, Order.mem_arrange, List.mem_flatMap]
    constructor
    · rintro (rfl | ⟨child, hc, hq⟩)
      · exact .refl
      · have hl := h.mem_accepted.1 hc
        exact .head hl ((ih child hl.1).1 hq)
    · intro hq
      rcases hq.cases_head with rfl | ⟨child, hl, hq⟩
      · exact .inl rfl
      · exact .inr ⟨child, h.mem_accepted.2 hl, (ih child hl.1).2 hq⟩

/-- What is below two children of one node is below one child. -/
theorem eq_of_siblings {a b : String} (ha : r.parentOf a = some path) (hb : r.parentOf b = some path)
    (hqa : r.Below a q) (hqb : r.Below b q) : a = b :=
  h.eq_of_below hqa hqb (by rw [h.depth_of_parentOf ha, h.depth_of_parentOf hb])

theorem not_below_parent {child : String} (hp : r.parentOf child = some path)
    (hq : r.Below child q) : ¬r.Below q path := by
  intro hqp
  have hd := h.depth_of_parentOf hp
  rcases h.depth_of_below hq with rfl | h₁ <;> rcases h.depth_of_below hqp with h₂ | h₂
  · rw [h₂] at hd; omega
  · omega
  · rw [h₂] at h₁; omega
  · omega

/-- No node comes after one that it has to precede, or twice. -/
theorem pairwise_traversal (order : Order) (accepts : String → Bool) (path : String) :
    (r.traversal order accepts path).Pairwise fun a b => ¬order.Precedes r b a := by
  induction path using h.childrenInduction with
  | step path ih =>
    have hbelow : ∀ x ∈ (r.accepted accepts path).flatMap (r.traversal order accepts),
        ¬r.Below x path := by
      intro x hx
      obtain ⟨child, hc, hx⟩ := List.mem_flatMap.1 hx
      exact h.not_below_parent (h.mem_accepted.1 hc).1 (h.mem_traversal.1 hx).below
    have hflat : ((r.accepted accepts path).flatMap (r.traversal order accepts)).Pairwise
        fun a b => ¬order.Precedes r b a := by
      refine List.pairwise_flatMap.2 ⟨fun child hc => ih child (h.mem_accepted.1 hc).1, ?_⟩
      refine h.nodup_accepted.imp_of_mem fun {a b} ha hb hne x hx y hy => ?_
      have hpa := (h.mem_accepted.1 ha).1
      have hpb := (h.mem_accepted.1 hb).1
      have hxa := (h.mem_traversal.1 hx).below
      have hyb := (h.mem_traversal.1 hy).below
      cases order with
      | parentFirst => exact fun hyx => hne (h.eq_of_siblings hpa hpb hxa (hyb.trans hyx))
      | childrenFirst => exact fun hxy => hne (h.eq_of_siblings hpa hpb (hxa.trans hxy) hyb)
    rw [h.traversal_eq]
    cases order with
    | parentFirst => exact List.pairwise_cons.2 ⟨hbelow, hflat⟩
    | childrenFirst =>
      refine List.pairwise_append.2 ⟨hflat, List.pairwise_singleton .., fun x hx y hy => ?_⟩
      rw [List.mem_singleton.1 hy]
      exact hbelow x hx

/-- What has been visited at some point has everything with it that precedes it. -/
theorem closed_traversal {visited left : List String} (ht : r.traversal order accepts path = visited ++ left)
    {a b : String} (ha : a ∈ visited) (hb : b ∈ r.traversal order accepts path)
    (hp : order.Precedes r b a) : b ∈ visited := by
  have hpairs := h.pairwise_traversal order accepts path
  rw [ht] at hpairs hb
  rcases List.mem_append.1 hb with hb | hb
  · exact hb
  · exact absurd hp ((List.pairwise_append.1 hpairs).2.2 a ha b hb)

theorem nodup_traversal : (r.traversal order accepts path).Nodup := by
  refine (h.pairwise_traversal order accepts path).imp fun {a b} hab => ?_
  rintro rfl
  cases order <;> exact hab .refl

end IsTree

theorem accepted_of_bare {s : Repository} (hs : s.bare = r.bare) : s.accepted = r.accepted := by
  funext accepts path
  unfold accepted
  rw [childrenOf_of_bare hs, kindOf_of_bare hs]
end Repository
end AclTree
