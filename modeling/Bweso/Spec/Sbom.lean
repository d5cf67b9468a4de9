import Bweso.Lib.Python
import Bweso.Lib.Result
import Bweso.Spec.Basic

/-! `runtime_graph` of `scripts/runtime_sbom.py`: the dependency graph that
`cargo tree --prefix depth` lists, against the metadata of `cargo metadata`. -/

namespace Bweso

open Py (Exc)

structure CargoPackage where
  id : Str
  name : Str
  version : Str
  source : Option Str
  deriving DecidableEq

/-- An entry of a node's `deps`, with the kinds in its `dep_kinds`. -/
structure CargoDep where
  pkg : Str
  kinds : List (Option Str)
  deriving DecidableEq

structure CargoNode where
  id : Str
  deps : List CargoDep
  deriving DecidableEq

/-- `cargo metadata`, as far as the graph needs it. -/
structure CargoMetadata where
  packages : List CargoPackage
  nodes : List CargoNode

/-! ### Lines -/

/-- Where `str.splitlines` cuts. -/
def isLineBreak (c : Char) : Bool :=
  ('\n' ≤ c && c ≤ '\r') || ('\u001c' ≤ c && c ≤ '\u001e') || c == '\u0085' || c == '\u2028' || c == '\u2029'

/-- `str.splitlines`, with the line read so far and whether a carriage return
came right before. -/
def splitlinesFrom (line : Str) (afterReturn : Bool) : Str → List Str
  | [] => if line = [] then [] else [line]
  | c :: s =>
    if afterReturn && c == '\n' then splitlinesFrom line false s
    else if isLineBreak c then line :: splitlinesFrom [] (c == '\r') s
    else splitlinesFrom (line ++ [c]) false s

def splitlines (s : Str) : List Str := splitlinesFrom [] false s

/-- `[A-Za-z0-9_-]` -/
def isNameChar (c : Char) : Bool := c.isAlphanum || c == '_' || c == '-'

/-- `[0-9A-Za-z.+-]` -/
def isVersionChar (c : Char) : Bool := c.isAlphanum || c == '.' || c == '+' || c == '-'

/-- The groups of `([0-9]+)([A-Za-z0-9_-]+) v([0-9][0-9A-Za-z.+-]*)(?: .*)?` over
a whole line. The digits are greedy, but leave a character to the name. -/
def matchTreeLine (line : Str) : Option (Str × Str × Str) :=
  let head := line.takeWhile isNameChar
  let digits := head.dropLast.takeWhile Char.isDigit
  let name := head.drop digits.length
  match line.drop head.length with
  | ' ' :: 'v' :: rest =>
    let version := rest.takeWhile isVersionChar
    let suffix := rest.drop version.length
    if digits ≠ [] ∧ version.head?.any Char.isDigit ∧ suffix.head?.all (· == ' ') ∧ '\n' ∉ suffix then
      some (digits, name, version)
    else none
  | _ => none

/-- `int` of a text of digits, which refuses more than 4300 of them. -/
def toInt (digits : Str) : Except Exc ℕ :=
  if 4300 < digits.length then .error .other else .ok (Nat.ofDigitChars 10 digits 0)

/-! ### The graph -/

def require (condition : Prop) [Decidable condition] (message : String) : Except Exc Unit :=
  if condition then .ok () else .error (.own message)

/-- The packages by name and version. -/
def coordinates (packages : List CargoPackage) : Except Exc (Finmap fun _ : Str × Str => CargoPackage) :=
  packages.foldlM (fun coordinates package => do
    require ((package.name, package.version) ∉ coordinates) "ambiguous package coordinates"
    .ok (coordinates.insert (package.name, package.version) package)) ∅

/-- The dependencies of each node; of two with one identity the later. -/
def nodesById (nodes : List CargoNode) : Finmap fun _ : Str => List CargoDep :=
  nodes.foldl (fun nodesById node => nodesById.insert node.id node.deps) ∅

/-- What the loop over the lines keeps. -/
structure RuntimeGraph where
  root : Option Str
  visited : Finmap fun _ : Str => CargoPackage
  edges : Finmap fun _ : Str => Finset Str
  stack : List Str

def RuntimeGraph.empty : RuntimeGraph := ⟨none, ∅, ∅, []⟩

def providerName : Str := "vaultwarden-eso-provider".toList

/-- `any(d["pkg"] == identity and any(k["kind"] is None …) …)` -/
def declaresNormal (deps : List CargoDep) (identity : Str) : Bool :=
  deps.any fun d => d.pkg == identity && d.kinds.any Option.isNone

/-- The parent of a line and its edge, or the root. -/
def attach (nodes : Finmap fun _ : Str => List CargoDep) (g : RuntimeGraph) (depth : ℕ) (package : CargoPackage) :
    Except Exc RuntimeGraph :=
  match depth with
  | 0 => do
    require (g.root = none ∧ package.name = providerName ∧ package.source = none) "expected one provider package"
    .ok { g with root := some package.id }
  | d + 1 =>
    match g.stack[d]? with
    | none => .error .other
    | some parent =>
      match nodes.lookup parent with
      | none => .error .keyError
      | some deps => do
        require (declaresNormal deps package.id) "tree edge is not a declared normal dependency"
        match g.edges.lookup parent with
        | none => .error .keyError
        | some children => .ok { g with edges := g.edges.insert parent (insert package.id children) }

/-- One line of the tree. -/
def addTreeLine (coordinates : Finmap fun _ : Str × Str => CargoPackage)
    (nodes : Finmap fun _ : Str => List CargoDep) (g : RuntimeGraph) (line : Str) : Except Exc RuntimeGraph :=
  match matchTreeLine line with
  | none => .error (.own "unrecognized Cargo depth-tree line")
  | some (digits, name, version) => do
    let depth ← toInt digits
    match coordinates.lookup (name, version) with
    | none => .error (.own "incomplete dependency tree")
    | some package =>
      require (depth ≤ g.stack.length) "incomplete dependency tree"
      require (package.id ∈ nodes) "missing dependency metadata"
      let g ← attach nodes g depth package
      .ok { g with
        visited := g.visited.insert package.id package
        edges := if package.id ∈ g.edges then g.edges else g.edges.insert package.id ∅
        stack := g.stack.take depth ++ [package.id] }

def runtimeGraph (metadata : CargoMetadata) (tree : Str) :
    Except Exc (Str × (Finmap fun _ : Str => CargoPackage) × Finmap fun _ : Str => Finset Str) := do
  let coordinates ← coordinates metadata.packages
  let nodes := nodesById metadata.nodes
  let lines := splitlines tree
  require (0 < lines.length ∧ lines.length ≤ 100000) "invalid dependency tree size"
  let g ← lines.foldlM (addTreeLine coordinates nodes) .empty
  match g.root with
  | some root => .ok (root, g.visited, g.edges)
  | none => .error (.own "provider tree is empty")

end Bweso
