import Bweso.Lib.Entries
import Bweso.Lib.Forest
import Bweso.Spec.Sbom

/-! The dependency graph of a depth listing: it is read as the pre-order listing
of one tree, and only such listings are read. The stack is the path to the
package read last. -/

namespace Bweso

open Py (Exc)

/-! ### Lines -/

/-- As Cargo guarantees of a package's name. -/
structure IsPackageName (name : Str) : Prop where
  chars : ∀ c ∈ name, isNameChar c = true
  start : ∃ c, name.head? = some c ∧ c.isDigit = false

/-- As Cargo guarantees of a package's version. -/
structure IsPackageVersion (version : Str) : Prop where
  chars : ∀ c ∈ version, isVersionChar c = true
  start : ∃ c, version.head? = some c ∧ c.isDigit = true

/-- What may follow the version. -/
def IsSuffix (suffix : Str) : Prop := suffix.head?.all (· == ' ') = true ∧ '\n' ∉ suffix

/-- A line that lists `p` at `depth`. -/
def TreeLine (line : Str) (x : ℕ × CargoPackage) : Prop :=
  ∃ digits suffix, line = digits ++ (x.2.name ++ ' ' :: 'v' :: (x.2.version ++ suffix)) ∧ digits ≠ [] ∧
    (∀ c ∈ digits, c.isDigit = true) ∧ digits.length ≤ 4300 ∧ Nat.ofDigitChars 10 digits 0 = x.1 ∧ IsSuffix suffix

theorem isNameChar_of_isDigit {c : Char} (h : c.isDigit = true) : isNameChar c = true := by
  simp [isNameChar, Char.isAlphanum, h]

theorem takeWhile_append_of_head {α : Type} {p : α → Bool} {s rest : List α} (hs : ∀ c ∈ s, p c = true)
    (hrest : ∀ c, rest.head? = some c → p c = false) : (s ++ rest).takeWhile p = s := by
  rw [List.takeWhile_append_of_pos hs]
  cases rest with
  | nil => simp
  | cons c rest => rw [List.takeWhile_cons_of_neg (by simp [hrest c rfl]), List.append_nil]

theorem IsSuffix.head {suffix : Str} (h : IsSuffix suffix) {c : Char} (hc : suffix.head? = some c) : c = ' ' := by
  have hall := h.1
  rw [hc] at hall
  simpa using hall

theorem matchTreeLine_layout {digits name version suffix : Str} (hne : digits ≠ [])
    (hdigits : ∀ c ∈ digits, c.isDigit = true) (hname : IsPackageName name) (hversion : IsPackageVersion version)
    (hsuffix : IsSuffix suffix) :
    matchTreeLine (digits ++ (name ++ ' ' :: 'v' :: (version ++ suffix))) = some (digits, name, version) := by
  have hhead : (digits ++ (name ++ ' ' :: 'v' :: (version ++ suffix))).takeWhile isNameChar = digits ++ name := by
    rw [← List.append_assoc]
    refine takeWhile_append_of_head (fun c hc => ?_) fun c hc => ?_
    · rcases List.mem_append.mp hc with hc | hc
      · exact isNameChar_of_isDigit (hdigits c hc)
      · exact hname.chars c hc
    · rw [← Option.some.inj hc]
      decide
  obtain ⟨start, hstart, hnot⟩ := hname.start
  obtain ⟨rest, rfl⟩ := List.head?_eq_some_iff.mp hstart
  have hgreedy : (digits ++ start :: rest).dropLast.takeWhile Char.isDigit = digits := by
    rw [List.dropLast_append_of_ne_nil (by simp)]
    refine takeWhile_append_of_head hdigits fun c hc => ?_
    cases rest with
    | nil => simp at hc
    | cons d rest => rw [← Option.some.inj hc, hnot]
  have hversionRun : (version ++ suffix).takeWhile isVersionChar = version := by
    refine takeWhile_append_of_head hversion.chars fun c hc => ?_
    rw [hsuffix.head hc]
    decide
  have hdrop : (digits ++ (start :: rest ++ ' ' :: 'v' :: (version ++ suffix))).drop (digits ++ start :: rest).length =
      ' ' :: 'v' :: (version ++ suffix) := by
    rw [← List.append_assoc, List.drop_left]
  obtain ⟨d, hd, hdigit⟩ := hversion.start
  unfold matchTreeLine
  simp only [hhead, hgreedy, hdrop, hversionRun, List.drop_left]
  rw [if_pos ⟨hne, by simp [hd, hdigit], hsuffix.1, hsuffix.2⟩]

theorem matchTreeLine_eq_some {line digits name version : Str}
    (h : matchTreeLine line = some (digits, name, version)) :
    ∃ suffix, line = digits ++ (name ++ ' ' :: 'v' :: (version ++ suffix)) ∧ digits ≠ [] ∧
      (∀ c ∈ digits, c.isDigit = true) ∧ IsSuffix suffix := by
  unfold matchTreeLine at h
  dsimp only at h
  split at h
  · rename_i rest hrest
    split at h
    · rename_i hcond
      obtain ⟨hne, -, hspace, hfeed⟩ := hcond
      simp only [Option.some.injEq, Prod.mk.injEq] at h
      obtain ⟨hdigits, hname, hversion⟩ := h
      have hprefix : digits <+: line.takeWhile isNameChar := by
        rw [← hdigits]
        exact (List.takeWhile_prefix _).trans (List.dropLast_prefix _)
      have hhead : line.takeWhile isNameChar = digits ++ name := by
        obtain ⟨t, ht⟩ := hprefix
        rw [← hname, hdigits, ← ht, List.drop_left]
      have hdrop : rest = version ++ rest.drop version.length := by
        obtain ⟨t, ht⟩ : version <+: rest := by
          rw [← hversion]
          exact List.takeWhile_prefix _
        rw [← ht, List.drop_left]
      refine ⟨rest.drop version.length, ?_, by rwa [hdigits] at hne, fun c hc => ?_, ?_⟩
      · have hline := List.prefix_iff_eq_append.mp (List.takeWhile_prefix (l := line) isNameChar)
        rw [hrest, hhead, List.append_assoc] at hline
        rw [← hdrop]
        exact hline.symm
      · rw [← hdigits] at hc
        exact List.mem_takeWhile_imp hc
      · rw [hversion] at hspace hfeed
        exact ⟨hspace, hfeed⟩
    · cases h
  · cases h

/-! ### Metadata -/

namespace CargoMetadata

/-- What Cargo guarantees of its metadata. -/
structure WellFormed (m : CargoMetadata) : Prop where
  coordinates : (m.packages.map fun p => (p.name, p.version)).Nodup
  ids : (m.packages.map CargoPackage.id).Nodup
  names : ∀ p ∈ m.packages, IsPackageName p.name
  versions : ∀ p ∈ m.packages, IsPackageVersion p.version

/-- The node of an identity; of two the later. -/
def node? (m : CargoMetadata) (id : Str) : Option CargoNode := m.nodes.reverse.find? (·.id == id)

/-- `p` declares `q` as a normal dependency. -/
def Declares (m : CargoMetadata) (p q : CargoPackage) : Prop :=
  ∃ n, m.node? p.id = some n ∧ ∃ d ∈ n.deps, d.pkg = q.id ∧ none ∈ d.kinds

end CargoMetadata

theorem require_eq_ok {condition : Prop} [Decidable condition] {message : String} {u : Unit} :
    require condition message = .ok u ↔ condition := by
  unfold require
  split <;> simp [*]

def coordinateEntries (packages : List CargoPackage) : List ((Str × Str) × CargoPackage) :=
  packages.map fun p => ((p.name, p.version), p)

theorem coordinates_from {packages : List CargoPackage} {m : Finmap fun _ : Str × Str => CargoPackage}
    {l : List ((Str × Str) × CargoPackage)} (hm : Entries.Of m l)
    (hnodup : (l.map Prod.fst ++ packages.map fun p => (p.name, p.version)).Nodup) :
    ∃ m', packages.foldlM (fun coordinates package => do
        require ((package.name, package.version) ∉ coordinates) "ambiguous package coordinates"
        .ok (coordinates.insert (package.name, package.version) package)) m = .ok m' ∧
      Entries.Of m' (l ++ coordinateEntries packages) := by
  induction packages generalizing m l with
  | nil => exact ⟨m, rfl, by simpa [coordinateEntries] using hm⟩
  | cons p packages ih =>
    have hfresh : (p.name, p.version) ∉ l.map Prod.fst := by
      rw [List.map_cons, List.nodup_append] at hnodup
      intro hmem
      exact hnodup.2.2 _ hmem _ List.mem_cons_self rfl
    obtain ⟨m', hfold, hof⟩ := ih (hm.insert hfresh p) (by simpa using hnodup)
    refine ⟨m', ?_, by simpa [coordinateEntries] using hof⟩
    rw [List.foldlM_cons, require, if_pos (fun hmem => hfresh (hm.mem_iff.mp hmem))]
    exact hfold

theorem coordinates_of_wellFormed {m : CargoMetadata} (hm : m.WellFormed) : ∃ coords,
    coordinates m.packages = .ok coords ∧ ∀ name version p,
      coords.lookup (name, version) = some p ↔ p ∈ m.packages ∧ p.name = name ∧ p.version = version := by
  obtain ⟨coords, hok, hof⟩ := coordinates_from Entries.Of.empty (by simpa using hm.coordinates)
  refine ⟨coords, hok, fun name version p => ?_⟩
  rw [hof]
  simp only [coordinateEntries, List.nil_append, List.mem_map, Prod.mk.injEq]
  refine ⟨fun h => ?_, fun h => ?_⟩
  · obtain ⟨q, hq, ⟨hname, hversion⟩, rfl⟩ := h
    exact ⟨hq, hname, hversion⟩
  · exact ⟨p, h.1, h.2, rfl⟩

theorem lookup_nodesById (m : CargoMetadata) (id : Str) :
    (nodesById m.nodes).lookup id = (m.node? id).map CargoNode.deps := by
  have step : ∀ (nodes : List CargoNode) (acc : Finmap fun _ : Str => List CargoDep),
      (nodes.foldl (fun nodesById node => nodesById.insert node.id node.deps) acc).lookup id =
        ((nodes.reverse.find? (·.id == id)).map CargoNode.deps).or (acc.lookup id) := by
    intro nodes
    induction nodes with
    | nil => simp
    | cons n nodes ih =>
      intro acc
      rw [List.foldl_cons, ih, List.reverse_cons, List.find?_append]
      by_cases hn : n.id = id
      · subst hn
        simp [Finmap.lookup_insert]
      · have hne : (n.id == id) = false := by simpa using hn
        rw [Finmap.lookup_insert_of_ne _ (Ne.symm hn)]
        simp [hne]
  rw [nodesById, step, Finmap.lookup_empty, Option.or_none]
  rfl

theorem declaresNormal_iff {m : CargoMetadata} {p q : CargoPackage} {deps : List CargoDep}
    (h : (nodesById m.nodes).lookup p.id = some deps) : declaresNormal deps q.id = true ↔ m.Declares p q := by
  rw [lookup_nodesById] at h
  obtain ⟨n, hn, rfl⟩ := Option.map_eq_some_iff.mp h
  simp only [declaresNormal, List.any_eq_true, Bool.and_eq_true, beq_iff_eq, CargoMetadata.Declares]
  refine ⟨fun hany => ?_, fun hdeclares => ?_⟩
  · obtain ⟨d, hd, hpkg, k, hk, hnone⟩ := hany
    rw [Option.isNone_iff_eq_none] at hnone
    exact ⟨n, hn, d, hd, hpkg, hnone ▸ hk⟩
  · obtain ⟨n', hn', d, hd, hpkg, hnone⟩ := hdeclares
    obtain rfl := Option.some.inj (hn.symm.trans hn')
    exact ⟨d, hd, hpkg, none, hnone, rfl⟩

/-! ### The stack and the path -/

section
variable {m : CargoMetadata} {f : Forest CargoPackage} {g g' : RuntimeGraph} {d : ℕ} {p : CargoPackage}

def IsProvider (p : CargoPackage) : Prop := p.name = providerName ∧ p.source = none

/-- What a forest of packages needs to become a dependency tree. -/
structure Admissible (m : CargoMetadata) (f : Forest CargoPackage) : Prop where
  listed : ∀ p ∈ f.nodes, p ∈ m.packages ∧ (m.node? p.id).isSome
  declared : ∀ x ∈ f.pairs none, m.Declares x.1 x.2
  root : f.roots = [] ∨ ∃ r, f.roots = [r] ∧ IsProvider r

/-- The loop's state is about the forest read so far. -/
structure Tracks (f : Forest CargoPackage) (g : RuntimeGraph) : Prop where
  stack : g.stack = f.spine.map CargoPackage.id
  root : g.root = f.roots.head?.map CargoPackage.id
  visited : ∀ id p, g.visited.lookup id = some p ↔ p ∈ f.nodes ∧ p.id = id
  vertices : ∀ id, id ∈ g.edges ↔ ∃ p ∈ f.nodes, p.id = id
  edges : ∀ id children, g.edges.lookup id = some children →
    ∀ child, child ∈ children ↔ ∃ x ∈ f.pairs none, x.1.id = id ∧ x.2.id = child

theorem admissible_nil : Admissible m .nil where
  listed := by simp
  declared := by simp
  root := Or.inl rfl

theorem tracks_empty : Tracks .nil .empty where
  stack := rfl
  root := rfl
  visited := by simp [RuntimeGraph.empty]
  vertices := by simp [RuntimeGraph.empty, Finmap.notMem_empty]
  edges := by simp [RuntimeGraph.empty]

/-- A smaller forest is admissible too. -/
theorem Admissible.of_add (h : Admissible m (f.add d p)) (hd : d ≤ f.spine.length) : Admissible m f := by
  refine ⟨fun q hq => h.listed q ?_, fun x hx => h.declared x ?_, ?_⟩
  · rw [Forest.nodes_add hd]
    exact List.mem_append_left _ hq
  · rw [Forest.pairs_add hd]
    exact List.mem_append_left _ hx
  · cases d with
    | zero =>
      have hroot := h.root
      rw [Forest.roots_add_zero] at hroot
      rcases hroot with hroot | ⟨r, hroot, -⟩
      · simp at hroot
      · rw [List.append_eq_singleton_iff] at hroot
        simp only [List.cons_ne_self, List.cons.injEq, and_true, and_false, or_false] at hroot
        exact Or.inl hroot.1
    | succ d =>
      have hroot := h.root
      rwa [Forest.roots_add_succ hd] at hroot

theorem admissible_add_zero (h : Admissible m f) (hp : p ∈ m.packages ∧ (m.node? p.id).isSome) :
    Admissible m (f.add 0 p) ↔ f.roots = [] ∧ IsProvider p := by
  have hpairs : (f.add 0 p).pairs none = f.pairs none := by
    rw [Forest.pairs_add f.spine.length.zero_le]
    simp [Forest.parentAt]
  refine ⟨fun hadd => ?_, fun hroot => ⟨fun q hq => ?_, fun x hx => ?_, ?_⟩⟩
  · have hroot := hadd.root
    rw [Forest.roots_add_zero] at hroot
    rcases hroot with hroot | ⟨r, hroot, hprovider⟩
    · simp at hroot
    · rcases List.append_eq_singleton_iff.mp hroot with ⟨hnil, hp⟩ | ⟨-, hp⟩
      · exact ⟨hnil, (List.cons.inj hp).1 ▸ hprovider⟩
      · cases hp
  · rw [Forest.nodes_add f.spine.length.zero_le] at hq
    rcases List.mem_append.mp hq with hq | hq
    · exact h.listed q hq
    · rw [List.mem_singleton.mp hq]
      exact hp
  · rw [hpairs] at hx
    exact h.declared x hx
  · rw [Forest.roots_add_zero, hroot.1]
    exact Or.inr ⟨p, rfl, hroot.2⟩

theorem admissible_add_succ {k : ℕ} {q : CargoPackage} (h : Admissible m f)
    (hp : p ∈ m.packages ∧ (m.node? p.id).isSome) (hk : k + 1 ≤ f.spine.length) (hq : f.spine[k]? = some q) :
    Admissible m (f.add (k + 1) p) ↔ m.Declares q p := by
  have hpairs : (f.add (k + 1) p).pairs none = f.pairs none ++ [(q, p)] := by
    rw [Forest.pairs_add hk, Forest.parentAt, hq]
    rfl
  refine ⟨fun hadd => ?_, fun hdeclares => ⟨fun r hr => ?_, fun x hx => ?_, ?_⟩⟩
  · exact hadd.declared (q, p) (by rw [hpairs]; simp)
  · rw [Forest.nodes_add hk] at hr
    rcases List.mem_append.mp hr with hr | hr
    · exact h.listed r hr
    · rw [List.mem_singleton.mp hr]
      exact hp
  · rw [hpairs] at hx
    rcases List.mem_append.mp hx with hx | hx
    · exact h.declared x hx
    · rw [List.mem_singleton.mp hx]
      exact hdeclares
  · rw [Forest.roots_add_succ hk]
    exact h.root

/-- The state with the edge to the parent, or the root. -/
def attached (f : Forest CargoPackage) (g : RuntimeGraph) (p : CargoPackage) : ℕ → RuntimeGraph
  | 0 => { g with root := some p.id }
  | k + 1 =>
    match f.spine[k]? with
    | none => g
    | some q => { g with edges := g.edges.insert q.id (insert p.id ((g.edges.lookup q.id).getD ∅)) }

/-- A package is attached exactly if the forest stays admissible. -/
theorem attach_eq_ok (h : Admissible m f) (ht : Tracks f g) (hd : d ≤ f.spine.length)
    (hp : p ∈ m.packages ∧ (m.node? p.id).isSome) :
    attach (nodesById m.nodes) g d p = .ok g' ↔ Admissible m (f.add d p) ∧ attached f g p d = g' := by
  cases d with
  | zero =>
    have hroot : g.root = none ↔ f.roots = [] := by
      rw [ht.root, Option.map_eq_none_iff, List.head?_eq_none_iff]
    rw [attach, Except.bind_eq_ok, admissible_add_zero h hp]
    simp only [require_eq_ok, hroot, Except.ok.injEq, IsProvider, exists_const, attached]
  | succ k =>
    obtain ⟨q, hq⟩ : ∃ q, f.spine[k]? = some q := ⟨_, List.getElem?_eq_getElem hd⟩
    have hmem : q ∈ f.nodes := Forest.mem_nodes_of_mem_spine (List.mem_of_getElem? hq)
    have hstack : g.stack[k]? = some q.id := by
      rw [ht.stack, List.getElem?_map, hq]
      rfl
    obtain ⟨n, hn⟩ := Option.isSome_iff_exists.mp (h.listed q hmem).2
    have hdeps : (nodesById m.nodes).lookup q.id = some n.deps := by
      rw [lookup_nodesById, hn]
      rfl
    obtain ⟨children, hchildren⟩ := Finmap.mem_iff.mp ((ht.vertices q.id).mpr ⟨q, hmem, rfl⟩)
    rw [admissible_add_succ h hp hd hq]
    simp only [attach, hstack, hdeps, attached, hq, hchildren, Option.getD_some]
    rw [Except.bind_eq_ok]
    simp only [require_eq_ok, Except.ok.injEq, exists_const, declaresNormal_iff hdeps]

/-- The edges after a package was attached: those of the new forest. -/
theorem attached_edges (ht : Tracks f g) (hd : d ≤ f.spine.length) {id : Str} {children : Finset Str}
    (h : (attached f g p d).edges.lookup id = some children) (child : Str) :
    child ∈ children ↔ ∃ x ∈ (f.add d p).pairs none, x.1.id = id ∧ x.2.id = child := by
  rw [Forest.pairs_add hd]
  cases d with
  | zero => simpa [Forest.parentAt, attached] using ht.edges id children h child
  | succ k =>
    obtain ⟨q, hq⟩ : ∃ q, f.spine[k]? = some q := ⟨_, List.getElem?_eq_getElem hd⟩
    have hmem : q ∈ f.nodes := Forest.mem_nodes_of_mem_spine (List.mem_of_getElem? hq)
    obtain ⟨before, hbefore⟩ := Finmap.mem_iff.mp ((ht.vertices q.id).mpr ⟨q, hmem, rfl⟩)
    simp only [attached, hq, hbefore, Option.getD_some] at h
    simp only [Forest.parentAt, hq, Option.map_some, Option.toList_some, List.mem_append, List.mem_singleton]
    by_cases hid : id = q.id
    · subst hid
      rw [Finmap.lookup_insert, Option.some.injEq] at h
      rw [← h, Finset.mem_insert, ht.edges q.id before hbefore]
      refine ⟨fun hchild => ?_, fun hx => ?_⟩
      · rcases hchild with rfl | ⟨x, hx, hfst, hsnd⟩
        · exact ⟨(q, p), Or.inr rfl, rfl, rfl⟩
        · exact ⟨x, Or.inl hx, hfst, hsnd⟩
      · obtain ⟨x, hx | rfl, hfst, hsnd⟩ := hx
        · exact Or.inr ⟨x, hx, hfst, hsnd⟩
        · exact Or.inl hsnd.symm
    · rw [Finmap.lookup_insert_of_ne _ hid] at h
      rw [ht.edges id children h]
      refine ⟨fun hx => ?_, fun hx => ?_⟩
      · obtain ⟨x, hx, hfst, hsnd⟩ := hx
        exact ⟨x, Or.inl hx, hfst, hsnd⟩
      · obtain ⟨x, hx | rfl, hfst, hsnd⟩ := hx
        · exact ⟨x, hx, hfst, hsnd⟩
        · exact absurd hfst.symm hid

theorem attached_vertices (ht : Tracks f g) (id : Str) : id ∈ (attached f g p d).edges ↔ id ∈ g.edges := by
  cases d with
  | zero => rfl
  | succ k =>
    unfold attached
    dsimp only
    split
    · rfl
    · rename_i q hq
      have hmem := Forest.mem_nodes_of_mem_spine (List.mem_of_getElem? hq)
      have hvertex : q.id ∈ g.edges := (ht.vertices q.id).mpr ⟨q, hmem, rfl⟩
      rw [Finmap.mem_insert]
      refine ⟨fun h => ?_, Or.inr⟩
      rcases h with rfl | h
      · exact hvertex
      · exact h

/-- The state after a line. -/
def listed (f : Forest CargoPackage) (g : RuntimeGraph) (p : CargoPackage) (d : ℕ) : RuntimeGraph :=
  let g := attached f g p d
  { g with
    visited := g.visited.insert p.id p
    edges := if p.id ∈ g.edges then g.edges else g.edges.insert p.id ∅
    stack := g.stack.take d ++ [p.id] }

theorem attached_frame : (attached f g p d).visited = g.visited ∧ (attached f g p d).stack = g.stack ∧
    (attached f g p d).root = if d = 0 then some p.id else g.root := by
  cases d with
  | zero => exact ⟨rfl, rfl, rfl⟩
  | succ k =>
    unfold attached
    dsimp only
    split <;> exact ⟨rfl, rfl, rfl⟩

theorem tracks_add (hm : m.WellFormed) (h : Admissible m (f.add d p)) (ht : Tracks f g) (hd : d ≤ f.spine.length) :
    Tracks (f.add d p) (listed f g p d) := by
  obtain ⟨hvisited, hstack, hroot⟩ := attached_frame (f := f) (g := g) (p := p) (d := d)
  have hnodes := Forest.nodes_add hd p
  have hbefore := h.of_add hd
  have hp : p ∈ m.packages := (h.listed p (by rw [hnodes]; simp)).1
  have hsame : ∀ q ∈ f.nodes, q.id = p.id → q = p := fun q hq hid =>
    List.inj_on_of_nodup_map hm.ids (hbefore.listed q hq).1 hp hid
  refine ⟨?_, ?_, fun id q => ?_, fun id => ?_, fun id children hlookup child => ?_⟩
  · simp only [listed, hstack, ht.stack, Forest.spine_add hd, List.map_append, List.map_take, List.map_cons,
      List.map_nil]
  · simp only [listed, hroot]
    cases d with
    | zero =>
      obtain ⟨r, hr, -⟩ := h.root.resolve_left (by rw [Forest.roots_add_zero]; simp)
      have hroots := hr
      rw [Forest.roots_add_zero] at hroots
      obtain ⟨-, hp⟩ | ⟨-, hp⟩ := List.append_eq_singleton_iff.mp hroots
      · rw [hr, if_pos rfl, (List.cons.inj hp).1]
        rfl
      · cases hp
    | succ k => rw [if_neg (Nat.succ_ne_zero k), Forest.roots_add_succ hd, ht.root]
  · simp only [listed, hvisited, hnodes, List.mem_append, List.mem_singleton]
    by_cases hid : id = p.id
    · subst hid
      rw [Finmap.lookup_insert, Option.some.injEq]
      refine ⟨?_, fun hq => ?_⟩
      · rintro rfl
        exact ⟨Or.inr rfl, rfl⟩
      · obtain ⟨hq | rfl, hid⟩ := hq
        · exact (hsame q hq hid).symm
        · rfl
    · rw [Finmap.lookup_insert_of_ne _ hid, ht.visited]
      refine ⟨fun hq => ⟨Or.inl hq.1, hq.2⟩, fun hq => ?_⟩
      obtain ⟨hq | rfl, hqid⟩ := hq
      · exact ⟨hq, hqid⟩
      · exact absurd hqid.symm hid
  · have hvertices : id ∈ (listed f g p d).edges ↔ id = p.id ∨ id ∈ g.edges := by
      simp only [listed]
      split
      · rename_i hin
        rw [attached_vertices ht] at hin ⊢
        refine ⟨Or.inr, fun h => ?_⟩
        rcases h with rfl | h
        · exact hin
        · exact h
      · rw [Finmap.mem_insert, attached_vertices ht]
    rw [hvertices, ht.vertices, hnodes]
    simp only [List.mem_append, List.mem_singleton]
    refine ⟨fun hid => ?_, fun hq => ?_⟩
    · rcases hid with rfl | ⟨q, hq, rfl⟩
      · exact ⟨p, Or.inr rfl, rfl⟩
      · exact ⟨q, Or.inl hq, rfl⟩
    · obtain ⟨q, hq | rfl, rfl⟩ := hq
      · exact Or.inr ⟨q, hq, rfl⟩
      · exact Or.inl rfl
  · simp only [listed] at hlookup
    split at hlookup
    · exact attached_edges ht hd hlookup child
    · rename_i hnew
      by_cases hid : id = p.id
      · -- a new package has no children yet
        subst hid
        rw [Finmap.lookup_insert, Option.some.injEq] at hlookup
        rw [← hlookup]
        simp only [Finset.notMem_empty, false_iff, not_exists, not_and]
        intro x hx hfst
        rw [attached_vertices ht, ht.vertices] at hnew
        refine absurd ?_ hnew
        rw [Forest.pairs_add hd] at hx
        rcases List.mem_append.mp hx with hx | hx
        · rcases Forest.fst_of_mem_pairs hx with hnone | hmem
          · cases hnone
          · exact ⟨x.1, hmem, hfst⟩
        · obtain ⟨q, hq, rfl⟩ := Option.map_eq_some_iff.mp (Option.mem_toList.mp hx)
          cases d with
          | zero => cases hq
          | succ k => exact ⟨q, Forest.mem_nodes_of_mem_spine (List.mem_of_getElem? hq), hfst⟩
      · rw [Finmap.lookup_insert_of_ne _ hid] at hlookup
        exact attached_edges ht hd hlookup child

theorem mem_nodesById {id : Str} : id ∈ nodesById m.nodes ↔ (m.node? id).isSome = true := by
  rw [← Finmap.lookup_isSome, lookup_nodesById, Option.isSome_map]

variable {coords : Finmap fun _ : Str × Str => CargoPackage}

/-- A line is taken exactly if it lists a package that may stand there. -/
theorem addTreeLine_eq_ok (hm : m.WellFormed) (hcoords : ∀ name version p,
      coords.lookup (name, version) = some p ↔ p ∈ m.packages ∧ p.name = name ∧ p.version = version)
    (hadm : Admissible m f) (ht : Tracks f g) {line : Str} :
    addTreeLine coords (nodesById m.nodes) g line = .ok g' ↔ ∃ x : ℕ × CargoPackage, TreeLine line x ∧
      x.1 ≤ f.spine.length ∧ Admissible m (f.add x.1 x.2) ∧ listed f g x.2 x.1 = g' := by
  have hlength : g.stack.length = f.spine.length := by rw [ht.stack, List.length_map]
  unfold addTreeLine
  refine ⟨fun h => ?_, fun h => ?_⟩
  · cases hmatch : matchTreeLine line with
    | none => simp [hmatch] at h
    | some groups =>
      obtain ⟨digits, name, version⟩ := groups
      obtain ⟨suffix, hline, hne, hdigits, hsuffix⟩ := matchTreeLine_eq_some hmatch
      simp only [hmatch] at h
      obtain ⟨depth, hint, hpackage⟩ := Except.bind_eq_ok.mp h
      clear h
      unfold toInt at hint
      obtain ⟨hlimit, hdepth⟩ := Except.guard_eq_ok.mp hint
      cases hlookup : coords.lookup (name, version) with
      | none => simp [hlookup] at hpackage
      | some p =>
        simp only [hlookup] at hpackage
        obtain ⟨hp, rfl, rfl⟩ := (hcoords _ _ _).mp hlookup
        obtain ⟨_, hd, h⟩ := Except.bind_eq_ok.mp hpackage
        obtain ⟨_, hnode, h⟩ := Except.bind_eq_ok.mp h
        obtain ⟨g₁, hattach, h⟩ := Except.bind_eq_ok.mp h
        rw [require_eq_ok, hlength] at hd
        rw [require_eq_ok, mem_nodesById] at hnode
        obtain ⟨hadd, rfl⟩ := (attach_eq_ok hadm ht hd ⟨hp, hnode⟩).mp hattach
        obtain ⟨-, hstack, -⟩ := attached_frame (f := f) (g := g) (p := p) (d := depth)
        refine ⟨(depth, p), ⟨digits, suffix, hline, hne, hdigits, not_lt.mp hlimit, Except.ok.inj hdepth, hsuffix⟩,
          hd, hadd, Except.ok.inj h⟩
  · obtain ⟨⟨depth, p⟩, ⟨digits, suffix, rfl, hne, hdigits, hlimit, hdepth, hsuffix⟩, hd, hadd, rfl⟩ := h
    dsimp only at hd hadd hdepth
    have hp := hadd.listed p (by rw [Forest.nodes_add hd]; simp)
    have hattach := (attach_eq_ok hadm ht hd hp).mpr ⟨hadd, rfl⟩
    have hint : toInt digits = .ok depth := by
      rw [toInt, if_neg (not_lt.mpr hlimit), hdepth]
    have hlookup := (hcoords p.name p.version p).mpr ⟨hp.1, rfl, rfl⟩
    rw [matchTreeLine_layout hne hdigits (hm.names p hp.1) (hm.versions p hp.1) hsuffix]
    simp only [hint, Except.ok_bind, hlookup]
    rw [require, if_pos (by rwa [hlength]), Except.ok_bind, require, if_pos (mem_nodesById.mpr hp.2), Except.ok_bind,
      hattach, Except.ok_bind]
    rfl

/-- A forest that grows to an admissible one is admissible. -/
theorem admissible_of_foldlM {f' : Forest CargoPackage} {l : List (ℕ × CargoPackage)}
    (h : l.foldlM Forest.grow f = some f') (hadm : Admissible m f') : Admissible m f := by
  induction l generalizing f with
  | nil => rwa [Option.some.inj h]
  | cons x l ih =>
    rw [List.foldlM_cons] at h
    obtain ⟨f₁, hgrow, h⟩ := Option.bind_eq_some_iff.mp h
    obtain ⟨hle, rfl⟩ := Forest.grow_eq_some.mp hgrow
    exact (ih h).of_add hle

/-- The lines are taken exactly if they list, from here, an admissible forest. -/
theorem foldlM_addTreeLine (hm : m.WellFormed) (hcoords : ∀ name version p,
      coords.lookup (name, version) = some p ↔ p ∈ m.packages ∧ p.name = name ∧ p.version = version)
    {lines : List Str} (hadm : Admissible m f) (ht : Tracks f g) :
    (∀ g', lines.foldlM (addTreeLine coords (nodesById m.nodes)) g = .ok g' → ∃ l f',
      List.Forall₂ TreeLine lines l ∧ l.foldlM Forest.grow f = some f' ∧ Admissible m f' ∧ Tracks f' g') ∧
    ∀ l f', List.Forall₂ TreeLine lines l → l.foldlM Forest.grow f = some f' → Admissible m f' →
      ∃ g', lines.foldlM (addTreeLine coords (nodesById m.nodes)) g = .ok g' ∧ Tracks f' g' := by
  induction lines generalizing f g with
  | nil =>
    refine ⟨fun g' h => ?_, fun l f' hlines hl _ => ?_⟩
    · obtain rfl := Except.ok.inj h
      exact ⟨[], f, .nil, rfl, hadm, ht⟩
    · cases hlines
      obtain rfl := Option.some.inj hl
      exact ⟨g, rfl, ht⟩
  | cons line lines ih =>
    refine ⟨fun g' h => ?_, fun l f' hlines hl hadm' => ?_⟩
    · rw [List.foldlM_cons] at h
      obtain ⟨g₁, hline, h⟩ := Except.bind_eq_ok.mp h
      obtain ⟨x, hx, hd, hadd, rfl⟩ := (addTreeLine_eq_ok hm hcoords hadm ht).mp hline
      obtain ⟨l, f', hlines, hl, hadm', ht'⟩ := (ih hadd (tracks_add hm hadd ht hd)).1 g' h
      refine ⟨x :: l, f', .cons hx hlines, ?_, hadm', ht'⟩
      rw [List.foldlM_cons, Forest.grow_eq_some.mpr ⟨hd, rfl⟩]
      exact hl
    · cases hlines with
      | cons hx hlines =>
        rename_i x l
        rw [List.foldlM_cons] at hl
        obtain ⟨f₁, hgrow, hl⟩ := Option.bind_eq_some_iff.mp hl
        obtain ⟨hd, rfl⟩ := Forest.grow_eq_some.mp hgrow
        have hadd := admissible_of_foldlM hl hadm'
        obtain ⟨g', hfold, ht'⟩ := (ih hadd (tracks_add hm hadd ht hd)).2 l f' hlines hl hadm'
        refine ⟨g', ?_, ht'⟩
        rw [List.foldlM_cons, (addTreeLine_eq_ok hm hcoords hadm ht).mpr ⟨x, hx, hd, hadd, rfl⟩]
        exact hfold

end

/-! ### Whole listings -/

/-- A rooted tree of listed packages with declared normal edges, the provider at
its root. -/
structure IsDependencyTree (m : CargoMetadata) (f : Forest CargoPackage) : Prop where
  root : ∃ r, f.roots = [r] ∧ IsProvider r
  listed : ∀ p ∈ f.nodes, p ∈ m.packages ∧ (m.node? p.id).isSome
  declared : ∀ x ∈ f.pairs none, m.Declares x.1 x.2
  size : f.nodes.length ≤ 100000

/-- The lines of the text list the forest. -/
def Lists (text : Str) (f : Forest CargoPackage) : Prop := List.Forall₂ TreeLine (splitlines text) (f.listing 0)

/-- The root, exactly the packages and exactly the pairs of the forest. -/
structure Reconstructs (f : Forest CargoPackage)
    (r : Str × (Finmap fun _ : Str => CargoPackage) × Finmap fun _ : Str => Finset Str) : Prop where
  root : f.roots.head?.map CargoPackage.id = some r.1
  packages : ∀ id p, r.2.1.lookup id = some p ↔ p ∈ f.nodes ∧ p.id = id
  vertices : ∀ id, id ∈ r.2.2 ↔ ∃ p ∈ f.nodes, p.id = id
  edges : ∀ id child, (∃ children, r.2.2.lookup id = some children ∧ child ∈ children) ↔
    ∃ x ∈ f.pairs none, x.1.id = id ∧ x.2.id = child

/-- The listing with each depth in decimal and nothing behind the version. -/
def renderTree (f : Forest CargoPackage) : Str :=
  (f.listing 0).flatMap fun x =>
    Nat.toDigits 10 x.1 ++ (x.2.name ++ ' ' :: 'v' :: x.2.version) ++ ['\n']

section
variable {m : CargoMetadata} {f : Forest CargoPackage} {g : RuntimeGraph}

theorem IsDependencyTree.admissible (h : IsDependencyTree m f) : Admissible m f :=
  ⟨h.listed, h.declared, Or.inr h.root⟩

theorem Tracks.reconstructs (ht : Tracks f g) {root : Str} (hroot : g.root = some root) :
    Reconstructs f (root, g.visited, g.edges) where
  root := by rw [← ht.root, hroot]
  packages := ht.visited
  vertices := ht.vertices
  edges id child := by
    refine ⟨fun h => ?_, fun h => ?_⟩
    · obtain ⟨children, hlookup, hchild⟩ := h
      exact (ht.edges id children hlookup child).mp hchild
    · obtain ⟨x, hx, rfl, rfl⟩ := h
      have hmem : x.1 ∈ f.nodes := by
        rcases Forest.fst_of_mem_pairs hx with hnone | hmem
        · cases hnone
        · exact hmem
      obtain ⟨children, hlookup⟩ := Finmap.mem_iff.mp ((ht.vertices x.1.id).mpr ⟨x.1, hmem, rfl⟩)
      exact ⟨children, hlookup, (ht.edges _ _ hlookup _).mpr ⟨x, hx, rfl, rfl⟩⟩

/-- A line lists one package at one depth. -/
theorem treeLine_unique (hm : m.WellFormed) {line : Str} {x y : ℕ × CargoPackage} (hx : TreeLine line x)
    (hy : TreeLine line y) (hxm : x.2 ∈ m.packages) (hym : y.2 ∈ m.packages) : x = y := by
  obtain ⟨digits, suffix, hline, hne, hdigits, -, hdepth, hsuffix⟩ := hx
  obtain ⟨digits', suffix', hline', hne', hdigits', -, hdepth', hsuffix'⟩ := hy
  have hmatch := matchTreeLine_layout hne hdigits (hm.names _ hxm) (hm.versions _ hxm) hsuffix
  rw [← hline, hline', matchTreeLine_layout hne' hdigits' (hm.names _ hym) (hm.versions _ hym) hsuffix'] at hmatch
  simp only [Option.some.injEq, Prod.mk.injEq] at hmatch
  obtain ⟨rfl, hname, hversion⟩ := hmatch
  have hpackage : y.2 = x.2 :=
    List.inj_on_of_nodup_map hm.coordinates hym hxm (by rw [hname, hversion])
  exact Prod.ext (hdepth.symm.trans hdepth') hpackage.symm

theorem lines_unique (hm : m.WellFormed) {lines : List Str} {l l' : List (ℕ × CargoPackage)}
    (h : List.Forall₂ TreeLine lines l) (h' : List.Forall₂ TreeLine lines l')
    (hl : ∀ x ∈ l, x.2 ∈ m.packages) (hl' : ∀ x ∈ l', x.2 ∈ m.packages) : l = l' := by
  induction h generalizing l' with
  | nil =>
    cases h'
    rfl
  | cons hx _ ih =>
    cases h' with
    | cons hy h' =>
      rw [treeLine_unique hm hx hy (hl _ List.mem_cons_self) (hl' _ List.mem_cons_self),
        ih h' (fun z hz => hl z (List.mem_cons_of_mem _ hz)) fun z hz => hl' z (List.mem_cons_of_mem _ hz)]

theorem mem_packages_of_listing (h : IsDependencyTree m f) : ∀ x ∈ f.listing 0, x.2 ∈ m.packages := by
  intro x hx
  have hnode : x.2 ∈ f.nodes := by
    rw [← Forest.nodes_listing f 0]
    exact List.mem_map_of_mem hx
  exact (h.listed x.2 hnode).1

theorem length_listing (f : Forest CargoPackage) : (f.listing 0).length = f.nodes.length := by
  rw [← Forest.nodes_listing f 0, List.length_map]

/-! ### Rendering -/

theorem splitlinesFrom_line {line : Str} (h : ∀ c ∈ line, isLineBreak c = false) (acc s : Str) :
    splitlinesFrom acc false (line ++ '\n' :: s) = (acc ++ line) :: splitlinesFrom [] false s := by
  induction line generalizing acc with
  | nil =>
    have hfeed : isLineBreak '\n' = true := by decide
    simp [splitlinesFrom, hfeed]
  | cons c line ih =>
    rw [List.cons_append, splitlinesFrom, Bool.false_and, if_neg Bool.false_ne_true, h c List.mem_cons_self,
      if_neg Bool.false_ne_true, ih fun d hd => h d (List.mem_cons_of_mem c hd)]
    simp

theorem splitlines_lines {lines : List Str} (h : ∀ l ∈ lines, ∀ c ∈ l, isLineBreak c = false) :
    splitlines (lines.flatMap (· ++ ['\n'])) = lines := by
  unfold splitlines
  induction lines with
  | nil => rfl
  | cons l lines ih =>
    rw [List.flatMap_cons, List.append_assoc, List.singleton_append,
      splitlinesFrom_line (h l List.mem_cons_self), ih fun l' hl' => h l' (List.mem_cons_of_mem l hl')]
    rfl

theorem isLineBreak_cases {c : Char} (h : isLineBreak c = true) :
    c.toNat ∈ [10, 11, 12, 13, 28, 29, 30, 133, 8232, 8233] := by
  simp only [isLineBreak, Bool.or_eq_true, Bool.and_eq_true, decide_eq_true_eq, beq_iff_eq] at h
  rcases h with (((⟨h, h'⟩ | ⟨h, h'⟩) | rfl) | rfl) | rfl
  · have hle : (10 : ℕ) ≤ c.toNat := h
    have hle' : c.toNat ≤ 13 := h'
    interval_cases c.toNat <;> simp
  · have hle : (28 : ℕ) ≤ c.toNat := h
    have hle' : c.toNat ≤ 30 := h'
    interval_cases c.toNat <;> simp
  · decide
  · decide
  · decide

theorem isLineBreak_of_isVersionOrName {c : Char} (h : isNameChar c = true ∨ isVersionChar c = true) :
    isLineBreak c = false := by
  by_contra hbreak
  have hmem := isLineBreak_cases (Bool.eq_true_of_not_eq_false hbreak)
  rw [← Char.ofNat_toNat c] at h
  generalize c.toNat = n at h hmem
  simp only [List.mem_cons, List.not_mem_nil, or_false] at hmem
  rcases hmem with rfl | rfl | rfl | rfl | rfl | rfl | rfl | rfl | rfl | rfl <;>
    exact absurd h (by decide)

/-- The line of a package without anything behind its version. -/
def treeLineText (x : ℕ × CargoPackage) : Str := Nat.toDigits 10 x.1 ++ (x.2.name ++ ' ' :: 'v' :: x.2.version)

theorem treeLine_text {x : ℕ × CargoPackage} (h : x.1 ≤ 100000) : TreeLine (treeLineText x) x := by
  refine ⟨Nat.toDigits 10 x.1, [], ?_, Nat.toDigits_ne_nil, fun c hc => ?_, ?_, Nat.ofDigitChars_ten_toDigits,
    rfl, by simp⟩
  · rw [List.append_nil]
    rfl
  · exact Nat.isDigit_of_mem_toDigits (by norm_num) (by norm_num) hc
  · have hlength : (Nat.toDigits 10 x.1).length ≤ 6 :=
      (Nat.length_toDigits_le_iff (by norm_num) (by norm_num)).mpr (by omega)
    omega

theorem isLineBreak_treeLineText (hm : m.WellFormed) {x : ℕ × CargoPackage} (hx : x.2 ∈ m.packages) :
    ∀ c ∈ treeLineText x, isLineBreak c = false := by
  intro c hc
  simp only [treeLineText, List.mem_append, List.mem_cons] at hc
  rcases hc with hc | hc | rfl | rfl | hc
  · have hdigit := Nat.isDigit_of_mem_toDigits (by norm_num) (by norm_num) hc
    exact isLineBreak_of_isVersionOrName (Or.inl (isNameChar_of_isDigit hdigit))
  · exact isLineBreak_of_isVersionOrName (Or.inl ((hm.names _ hx).chars c hc))
  · decide
  · decide
  · exact isLineBreak_of_isVersionOrName (Or.inr ((hm.versions _ hx).chars c hc))

theorem lists_render (hm : m.WellFormed) (h : IsDependencyTree m f) : Lists (renderTree f) f := by
  have hrender : renderTree f = ((f.listing 0).map treeLineText).flatMap (· ++ ['\n']) := by
    rw [List.flatMap_map]
    rfl
  unfold Lists
  rw [hrender, splitlines_lines fun l hl => ?_, List.forall₂_map_left_iff, List.forall₂_same]
  · intro x hx
    have hlt := Forest.lt_of_mem_listing hx
    have hsize := h.size
    exact treeLine_text (by omega)
  · obtain ⟨x, hx, rfl⟩ := List.mem_map.mp hl
    exact isLineBreak_treeLineText hm (mem_packages_of_listing h x hx)

/-- A listing of a tree gives the tree. -/
theorem runtimeGraph_of_lists (hm : m.WellFormed) {text : Str} (h : IsDependencyTree m f) (hl : Lists text f) :
    ∃ r, runtimeGraph m text = .ok r ∧ Reconstructs f r := by
  obtain ⟨coords, hcoords, hlookup⟩ := coordinates_of_wellFormed hm
  obtain ⟨root, hroots, -⟩ := h.root
  obtain ⟨g, hfold, ht⟩ := (foldlM_addTreeLine hm hlookup admissible_nil tracks_empty).2 _ f hl
    (Forest.read_eq_some.mpr rfl) h.admissible
  have hroot : g.root = some root.id := by
    rw [ht.root, hroots]
    rfl
  have hlength : (splitlines text).length = f.nodes.length := by rw [hl.length_eq, length_listing]
  have hpos : 0 < f.nodes.length := by
    cases f with
    | nil => cases hroots
    | cons a children siblings => simp
  refine ⟨_, ?_, ht.reconstructs hroot⟩
  have hbound := h.size
  have hsize : require (0 < (splitlines text).length ∧ (splitlines text).length ≤ 100000)
      "invalid dependency tree size" = .ok () := require_eq_ok.mpr ⟨by omega, by omega⟩
  unfold runtimeGraph
  simp only [hcoords, Except.ok_bind, hsize, hfold, hroot]

/-- Whatever is accepted lists a tree. -/
theorem lists_of_runtimeGraph (hm : m.WellFormed) {text : Str}
    {r : Str × (Finmap fun _ : Str => CargoPackage) × Finmap fun _ : Str => Finset Str}
    (h : runtimeGraph m text = .ok r) : ∃ f, IsDependencyTree m f ∧ Lists text f ∧ Reconstructs f r := by
  obtain ⟨coords, hcoords, hlookup⟩ := coordinates_of_wellFormed hm
  rw [runtimeGraph, hcoords, Except.ok_bind] at h
  obtain ⟨_, hsize, hlines⟩ := Except.bind_eq_ok.mp h
  rw [require_eq_ok] at hsize
  obtain ⟨g, hfold, hroot⟩ := Except.bind_eq_ok.mp hlines
  obtain ⟨l, f, hl, hread, hadm, ht⟩ := (foldlM_addTreeLine hm hlookup admissible_nil tracks_empty).1 g hfold
  obtain rfl := Forest.read_eq_some.mp hread
  have hlength : (splitlines text).length = f.nodes.length := by rw [hl.length_eq, length_listing]
  cases hg : g.root with
  | none => simp [hg] at hroot
  | some root =>
    simp only [hg, Except.ok.injEq] at hroot
    refine ⟨f, ⟨?_, hadm.listed, hadm.declared, by omega⟩, hl, hroot ▸ ht.reconstructs hg⟩
    rcases hadm.root with hnil | hone
    · rw [ht.root, hnil] at hg
      cases hg
    · exact hone

end

/-- `runtime_graph` gives back the tree whose pre-order listing it is given: its
root, its packages and its pairs of parent and child. Every text it accepts lists
exactly one such tree, and the plain rendering of a tree lists it. -/
theorem runtime_graph_exact (m : CargoMetadata) (hm : m.WellFormed) (text : Str) :
    (∀ f, IsDependencyTree m f → Lists text f → ∃ r, runtimeGraph m text = .ok r ∧ Reconstructs f r) ∧
    (∀ r, runtimeGraph m text = .ok r → ∃! f, IsDependencyTree m f ∧ Lists text f) ∧
    ∀ f, IsDependencyTree m f → Lists (renderTree f) f := by
  refine ⟨fun f hf hl => runtimeGraph_of_lists hm hf hl, fun r h => ?_, fun f hf => lists_render hm hf⟩
  obtain ⟨f, hf, hl, -⟩ := lists_of_runtimeGraph hm h
  refine ⟨f, ⟨hf, hl⟩, fun f' hf' => ?_⟩
  exact Forest.listing_injective
    (lines_unique hm hf'.2 hl (mem_packages_of_listing hf'.1) (mem_packages_of_listing hf))

/-! ### A provider with one dependency -/

def samplePackages : List CargoPackage :=
  [⟨"path+/project".toList, providerName, "0.5.0".toList, none⟩,
    ⟨"dep".toList, "dep".toList, "1.0.0".toList, some "registry".toList⟩]

def sampleMetadata : CargoMetadata where
  packages := samplePackages
  nodes := [⟨"path+/project".toList, [⟨"dep".toList, [none]⟩]⟩, ⟨"dep".toList, []⟩]

theorem sampleMetadata_wellFormed : sampleMetadata.WellFormed where
  coordinates := by decide
  ids := by decide
  names := by
    intro p hp
    simp only [sampleMetadata, samplePackages, List.mem_cons, List.not_mem_nil, or_false] at hp
    rcases hp with rfl | rfl
    · exact ⟨List.all_eq_true.mp (by decide), 'v', rfl, by decide⟩
    · exact ⟨List.all_eq_true.mp (by decide), 'd', rfl, by decide⟩
  versions := by
    intro p hp
    simp only [sampleMetadata, samplePackages, List.mem_cons, List.not_mem_nil, or_false] at hp
    rcases hp with rfl | rfl
    · exact ⟨List.all_eq_true.mp (by decide), '0', rfl, by decide⟩
    · exact ⟨List.all_eq_true.mp (by decide), '1', rfl, by decide⟩

def sampleTree : Str := "0vaultwarden-eso-provider v0.5.0 (/private/person/project)\n1dep v1.0.0\n".toList

theorem runtime_graph_exact_sample :
    (∃ r, runtimeGraph sampleMetadata sampleTree = .ok r) ∧
      ∃! f, IsDependencyTree sampleMetadata f ∧ Lists sampleTree f := by
  have hok : (runtimeGraph sampleMetadata sampleTree).isOk = true := by decide
  cases h : runtimeGraph sampleMetadata sampleTree with
  | error e =>
    rw [h] at hok
    cases hok
  | ok r => exact ⟨⟨r, rfl⟩, (runtime_graph_exact sampleMetadata sampleMetadata_wellFormed sampleTree).2.1 r h⟩

end Bweso
