import Mathlib.Tactic

/-! Ordered forests and their depth listings: every node in pre-order behind its
depth. A listing says which forest it is of, and it can be read from the left
with the path to the node read last. -/

/-- A forest of ordered trees: the first tree's root and its children, and the
trees after it. -/
inductive Forest (α : Type*)
  | nil
  | cons (root : α) (children siblings : Forest α)
  deriving DecidableEq

namespace Forest

variable {α : Type*}

def nodes : Forest α → List α
  | nil => []
  | cons a children siblings => a :: (children.nodes ++ siblings.nodes)

def roots : Forest α → List α
  | nil => []
  | cons a _ siblings => a :: siblings.roots

/-- The nodes in pre-order, each with its depth; the roots stand at `d`. -/
def listing (d : ℕ) : Forest α → List (ℕ × α)
  | nil => []
  | cons a children siblings => (d, a) :: (children.listing (d + 1) ++ siblings.listing d)

/-- The pairs of a node and its child, below a parent if there is one. -/
def pairs (parent : Option α) : Forest α → List (α × α)
  | nil => []
  | cons a children siblings =>
    (parent.map (·, a)).toList ++ (children.pairs (some a) ++ siblings.pairs parent)

/-- The path to the last node: the last root, its last child, and so on. -/
def spine : Forest α → List α
  | nil => []
  | cons a children nil => a :: children.spine
  | cons _ _ (cons b children siblings) => (cons b children siblings).spine

/-- `a` as a new last node below the first `d` nodes of the path. -/
def add : ℕ → α → Forest α → Forest α
  | 0, a, nil => cons a nil nil
  | _ + 1, _, nil => nil
  | 0, a, cons b children siblings => cons b children (siblings.add 0 a)
  | d + 1, a, cons b children nil => cons b (children.add d a) nil
  | d + 1, a, cons b children (cons c children' siblings) =>
    cons b children ((cons c children' siblings).add (d + 1) a)

@[simp] theorem nodes_nil : (nil : Forest α).nodes = [] := rfl

@[simp] theorem nodes_cons (a : α) (children siblings : Forest α) :
    (cons a children siblings).nodes = a :: (children.nodes ++ siblings.nodes) := rfl

@[simp] theorem roots_cons (a : α) (children siblings : Forest α) :
    (cons a children siblings).roots = a :: siblings.roots := rfl

@[simp] theorem listing_nil (d : ℕ) : (nil : Forest α).listing d = [] := rfl

@[simp] theorem listing_cons (d : ℕ) (a : α) (children siblings : Forest α) :
    (cons a children siblings).listing d = (d, a) :: (children.listing (d + 1) ++ siblings.listing d) := rfl

@[simp] theorem pairs_nil (parent : Option α) : (nil : Forest α).pairs parent = [] := rfl

@[simp] theorem pairs_cons (parent : Option α) (a : α) (children siblings : Forest α) :
    (cons a children siblings).pairs parent =
      (parent.map (·, a)).toList ++ (children.pairs (some a) ++ siblings.pairs parent) := rfl

@[simp] theorem add_zero_nil (a : α) : (nil : Forest α).add 0 a = cons a nil nil := rfl

@[simp] theorem add_zero_cons (a b : α) (children siblings : Forest α) :
    (cons b children siblings).add 0 a = cons b children (siblings.add 0 a) := rfl

@[simp] theorem add_succ_last (d : ℕ) (a b : α) (children : Forest α) :
    (cons b children nil).add (d + 1) a = cons b (children.add d a) nil := rfl

@[simp] theorem add_succ_cons (d : ℕ) (a b c : α) (children children' siblings : Forest α) :
    (cons b children (cons c children' siblings)).add (d + 1) a =
      cons b children ((cons c children' siblings).add (d + 1) a) := rfl

@[simp] theorem spine_nil : (nil : Forest α).spine = [] := rfl

@[simp] theorem spine_last (a : α) (children : Forest α) : (cons a children nil).spine = a :: children.spine := rfl

@[simp] theorem spine_cons_cons (a b : α) (children children' siblings : Forest α) :
    (cons a children (cons b children' siblings)).spine = (cons b children' siblings).spine := rfl

theorem nodes_listing (f : Forest α) (d : ℕ) : (f.listing d).map Prod.snd = f.nodes := by
  induction f generalizing d with
  | nil => rfl
  | cons a children siblings ihc ihs => simp [ihc, ihs]

/-- A node stands behind all the nodes above it. -/
theorem lt_of_mem_listing {f : Forest α} {d : ℕ} {x : ℕ × α} (h : x ∈ f.listing d) : x.1 < d + f.nodes.length := by
  induction f generalizing d with
  | nil => simp at h
  | cons a children siblings ihc ihs =>
    rw [nodes_cons, List.length_cons, List.length_append]
    rcases List.mem_cons.mp h with rfl | h
    · dsimp only
      omega
    · rcases List.mem_append.mp h with h | h
      · have hlt := ihc h
        omega
      · have hlt := ihs h
        omega

theorem le_of_mem_listing {f : Forest α} {d : ℕ} {x : ℕ × α} (h : x ∈ f.listing d) : d ≤ x.1 := by
  induction f generalizing d with
  | nil => simp at h
  | cons a children siblings ihc ihs =>
    rcases List.mem_cons.mp h with rfl | h
    · exact le_refl d
    · rcases List.mem_append.mp h with h | h
      · exact Nat.le_of_succ_le (ihc h)
      · exact ihs h

theorem head_listing {f : Forest α} {d : ℕ} {x : ℕ × α} (h : (f.listing d).head? = some x) : x.1 = d := by
  cases f with
  | nil => simp at h
  | cons a children siblings => rw [← Option.some.inj h]

/-- Children end where a depth is back at their parent's. -/
theorem append_listing_inj {l l' m m' : List (ℕ × α)} {d : ℕ} (hl : ∀ x ∈ l, d < x.1) (hl' : ∀ x ∈ l', d < x.1)
    (hm : ∀ x, m.head? = some x → x.1 = d) (hm' : ∀ x, m'.head? = some x → x.1 = d)
    (h : l ++ m = l' ++ m') : l = l' ∧ m = m' := by
  induction l generalizing l' with
  | nil =>
    cases l' with
    | nil => exact ⟨rfl, h⟩
    | cons x l' =>
      have hx := hl' x List.mem_cons_self
      rw [List.nil_append] at h
      have heq := hm x (by rw [h]; rfl)
      omega
  | cons x l ih =>
    cases l' with
    | nil =>
      have hx := hl x List.mem_cons_self
      rw [List.nil_append] at h
      have heq := hm' x (by rw [← h]; rfl)
      omega
    | cons y l' =>
      obtain ⟨rfl, htail⟩ := List.cons.inj h
      obtain ⟨rfl, hrest⟩ := ih (fun z hz => hl z (List.mem_cons_of_mem x hz))
        (fun z hz => hl' z (List.mem_cons_of_mem x hz)) htail
      exact ⟨rfl, hrest⟩

/-- A listing is of one forest. -/
theorem listing_injective {f f' : Forest α} {d : ℕ} (h : f.listing d = f'.listing d) : f = f' := by
  induction f generalizing f' d with
  | nil =>
    cases f' with
    | nil => rfl
    | cons a children siblings => cases h
  | cons a children siblings ihc ihs =>
    cases f' with
    | nil => cases h
    | cons a' children' siblings' =>
      obtain ⟨hroot, hrest⟩ := List.cons.inj h
      obtain ⟨hc, hs⟩ := append_listing_inj (fun x hx => le_of_mem_listing hx) (fun x hx => le_of_mem_listing hx)
        (fun x hx => head_listing hx) (fun x hx => head_listing hx) hrest
      rw [(Prod.mk.inj hroot).2, ihc hc, ihs hs]

theorem fst_of_mem_pairs {f : Forest α} {parent : Option α} {x : α × α} (h : x ∈ f.pairs parent) :
    parent = some x.1 ∨ x.1 ∈ f.nodes := by
  induction f generalizing parent with
  | nil => simp at h
  | cons a children siblings ihc ihs =>
    rw [pairs_cons, List.mem_append, List.mem_append] at h
    rw [nodes_cons, List.mem_cons, List.mem_append]
    rcases h with h | h | h
    · obtain ⟨b, hb, rfl⟩ := Option.map_eq_some_iff.mp (Option.mem_toList.mp h)
      exact Or.inl hb
    · rcases ihc h with h | h
      · exact Or.inr (Or.inl (Option.some.inj h).symm)
      · exact Or.inr (Or.inr (Or.inl h))
    · rcases ihs h with h | h
      · exact Or.inl h
      · exact Or.inr (Or.inr (Or.inr h))

theorem mem_nodes_of_mem_spine {f : Forest α} {a : α} (h : a ∈ f.spine) : a ∈ f.nodes := by
  induction f with
  | nil => cases h
  | cons b children siblings ihc ihs =>
    rw [nodes_cons]
    cases siblings with
    | nil =>
      rw [spine_last] at h
      rcases List.mem_cons.mp h with rfl | h
      · exact List.mem_cons_self
      · exact List.mem_cons_of_mem _ (List.mem_append_left _ (ihc h))
    | cons c children' siblings =>
      rw [spine_cons_cons] at h
      exact List.mem_cons_of_mem _ (List.mem_append_right _ (ihs h))

/-! ### Adding a node -/

theorem listing_add {f : Forest α} {k : ℕ} (h : k ≤ f.spine.length) (d : ℕ) (a : α) :
    (f.add k a).listing d = f.listing d ++ [(d + k, a)] := by
  induction k, a, f using add.induct generalizing d with
  | case1 a => rfl
  | case2 k a => simp at h
  | case3 a b children siblings ih => simp [ih]
  | case4 k a b children ih =>
    rw [spine_last, List.length_cons] at h
    rw [add_succ_last, listing_cons, ih (by omega), listing_cons]
    simp [Nat.add_comm k, Nat.add_assoc]
  | case5 k a b children c children' siblings ih =>
    rw [spine_cons_cons] at h
    rw [add_succ_cons, listing_cons, ih h]
    simp

theorem add_ne_nil {f : Forest α} {k : ℕ} (h : k ≤ f.spine.length) (a : α) :
    ∃ b children siblings, f.add k a = cons b children siblings := by
  induction k, a, f using add.induct with
  | case1 a => exact ⟨_, _, _, rfl⟩
  | case2 k a => simp at h
  | case3 a b children siblings => exact ⟨_, _, _, rfl⟩
  | case4 k a b children => exact ⟨_, _, _, rfl⟩
  | case5 k a b children c children' siblings => exact ⟨_, _, _, rfl⟩

theorem spine_add {f : Forest α} {k : ℕ} (h : k ≤ f.spine.length) (a : α) :
    (f.add k a).spine = f.spine.take k ++ [a] := by
  induction k, a, f using add.induct with
  | case1 a => rfl
  | case2 k a => simp at h
  | case3 a b children siblings ih =>
    obtain ⟨c, children', siblings', hadd⟩ := add_ne_nil siblings.spine.length.zero_le a
    rw [add_zero_cons, hadd, spine_cons_cons, ← hadd, ih siblings.spine.length.zero_le]
    simp
  | case4 k a b children ih =>
    rw [spine_last, List.length_cons] at h
    rw [add_succ_last, spine_last, ih (by omega), spine_last]
    rfl
  | case5 k a b children c children' siblings ih =>
    rw [spine_cons_cons] at h
    obtain ⟨c', children'', siblings', hadd⟩ := add_ne_nil h a
    rw [add_succ_cons, hadd, spine_cons_cons, ← hadd, ih h]
    simp

theorem nodes_add {f : Forest α} {k : ℕ} (h : k ≤ f.spine.length) (a : α) : (f.add k a).nodes = f.nodes ++ [a] := by
  rw [← nodes_listing _ 0, listing_add h, List.map_append, nodes_listing]
  rfl

theorem roots_add_zero (f : Forest α) (a : α) : (f.add 0 a).roots = f.roots ++ [a] := by
  induction f with
  | nil => rfl
  | cons b children siblings _ ihs => rw [add_zero_cons, roots_cons, ihs, roots_cons, List.cons_append]

theorem roots_add_succ {f : Forest α} {k : ℕ} (h : k + 1 ≤ f.spine.length) (a : α) :
    (f.add (k + 1) a).roots = f.roots := by
  induction f with
  | nil => simp at h
  | cons b children siblings _ ihs =>
    cases siblings with
    | nil => rfl
    | cons c children' siblings =>
      rw [spine_cons_cons] at h
      rw [add_succ_cons, roots_cons, ihs h]
      rfl

/-- The node a new one at depth `k` is a child of. -/
def parentAt (f : Forest α) (parent : Option α) : ℕ → Option α
  | 0 => parent
  | k + 1 => f.spine[k]?

theorem pairs_add {f : Forest α} {k : ℕ} (h : k ≤ f.spine.length) (parent : Option α) (a : α) :
    (f.add k a).pairs parent = f.pairs parent ++ ((f.parentAt parent k).map (·, a)).toList := by
  induction k, a, f using add.induct generalizing parent with
  | case1 a => simp [parentAt]
  | case2 k a => simp at h
  | case3 a b children siblings ih =>
    rw [add_zero_cons, pairs_cons, ih siblings.spine.length.zero_le]
    simp [parentAt]
  | case4 k a b children ih =>
    rw [spine_last, List.length_cons] at h
    rw [add_succ_last, pairs_cons, ih (by omega)]
    cases k with
    | zero => simp [parentAt]
    | succ k => simp [parentAt]
  | case5 k a b children c children' siblings ih =>
    rw [spine_cons_cons] at h
    rw [add_succ_cons, pairs_cons, ih h]
    simp [parentAt]

/-! ### Reading a listing -/

/-- The next entry of a listing, if its depth fits below the path. -/
def grow (f : Forest α) (x : ℕ × α) : Option (Forest α) :=
  if x.1 ≤ f.spine.length then some (f.add x.1 x.2) else none

def read (l : List (ℕ × α)) : Option (Forest α) := l.foldlM grow nil

theorem grow_eq_some {f f' : Forest α} {x : ℕ × α} : f.grow x = some f' ↔ x.1 ≤ f.spine.length ∧ f.add x.1 x.2 = f' := by
  unfold grow
  split <;> simp [*]

theorem listing_of_foldlM {f f' : Forest α} {l : List (ℕ × α)} (h : l.foldlM grow f = some f') :
    f'.listing 0 = f.listing 0 ++ l := by
  induction l generalizing f with
  | nil => simp [Option.some.inj h]
  | cons x l ih =>
    rw [List.foldlM_cons] at h
    obtain ⟨f₁, hgrow, h⟩ := Option.bind_eq_some_iff.mp h
    obtain ⟨hle, rfl⟩ := grow_eq_some.mp hgrow
    rw [ih h, listing_add hle, Nat.zero_add, List.append_assoc]
    rfl

/-- Read back below a path that is long enough, and the path stays so. -/
theorem foldlM_listing (g : Forest α) {f : Forest α} {d : ℕ} (h : d ≤ f.spine.length) :
    ∃ f', (g.listing d).foldlM grow f = some f' ∧ d ≤ f'.spine.length := by
  induction g generalizing f d with
  | nil => exact ⟨f, rfl, h⟩
  | cons a children siblings ihc ihs =>
    have hgrow : f.grow (d, a) = some (f.add d a) := grow_eq_some.mpr ⟨h, rfl⟩
    have hspine : (f.add d a).spine.length = d + 1 := by
      rw [spine_add h, List.length_append, List.length_take, Nat.min_eq_left h]
      rfl
    obtain ⟨f₁, hc, hd₁⟩ := ihc (le_of_eq hspine.symm)
    obtain ⟨f₂, hs, hd₂⟩ := ihs (Nat.le_of_succ_le hd₁)
    refine ⟨f₂, ?_, hd₂⟩
    rw [listing_cons, List.foldlM_cons, hgrow, Option.bind_eq_bind, Option.bind_some, List.foldlM_append, hc]
    exact hs

/-- Reading undoes listing, and only listings are read. -/
theorem read_eq_some {l : List (ℕ × α)} {f : Forest α} : read l = some f ↔ f.listing 0 = l := by
  refine ⟨fun h => ?_, fun h => ?_⟩
  · simpa using listing_of_foldlM h
  · obtain ⟨f', hread, -⟩ := foldlM_listing f (Nat.zero_le (nil : Forest α).spine.length)
    rw [h] at hread
    have hlisting := listing_of_foldlM hread
    rw [listing_nil, List.nil_append, ← h] at hlisting
    rw [← listing_injective hlisting]
    exact hread

end Forest
