import Mathlib.Data.List.Sort
import Mathlib.Tactic
import Bweso.Lib.Result

/-! Python as the repository's scripts use it: strings of code points, the
values `json.loads` makes, their equality, and the exceptions that reading them
raises. -/

namespace Py

/-- A `str`: its code points, lone surrogates among them. -/
abbrev Str := List ℕ

def lit (s : String) : Str := s.toList.map Char.toNat

/-! ### Strings -/

/-- `s.split(sep, 1)[-1]` -/
def afterFirst (sep : Str) (s : Str) : Str := (go s).getD s
where
  go : Str → Option Str
    | [] => none
    | c :: s => if sep.isPrefixOf (c :: s) then some ((c :: s).drop sep.length) else go s

/-- `s.rsplit(c, 1)[-1]` -/
def afterLast (c : ℕ) (s : Str) : Str := (s.reverse.takeWhile (· != c)).reverse

/-- `s.removeprefix(p)` -/
def removePrefix (p s : Str) : Str := if p.isPrefixOf s then s.drop p.length else s

/-- `s.removesuffix(p)` -/
def removeSuffix (p s : Str) : Str := if p.isSuffixOf s then s.take (s.length - p.length) else s

/-- `a <= b` -/
def strLe : Str → Str → Bool
  | [], _ => true
  | _ :: _, [] => false
  | a :: as, b :: bs => a < b || (a == b && strLe as bs)

/-- `sorted(xs)` -/
def sorted (xs : List Str) : List Str := xs.insertionSort fun a b => strLe a b = true

/-- `[0-9]` -/
def isDigit (c : ℕ) : Bool := 48 ≤ c && c ≤ 57

/-- `[0-9a-f]` -/
def isHexLower (c : ℕ) : Bool := isDigit c || (97 ≤ c && c ≤ 102)

/-- `[0-9A-Za-z]` -/
def isAlnum (c : ℕ) : Bool := isDigit c || (65 ≤ c && c ≤ 90) || (97 ≤ c && c ≤ 122)

/-! ### Values -/

/-- A `float`; every finite one is a fraction. -/
inductive Float
  | finite (q : ℚ)
  | inf (negative : Bool)
  | nan
  deriving DecidableEq

/-- What `json.loads` returns. A `dict` is its members in order. -/
inductive Value
  | none
  | bool (b : Bool)
  | int (n : ℤ)
  | float (x : Float)
  | str (s : Str)
  | list (items : List Value)
  | dict (members : List (Str × Value))

abbrev Dict := List (Str × Value)

namespace Value

/-- A number, `True` and `False` among them. -/
def number? : Value → Option Float
  | .bool b => some (.finite (if b then 1 else 0))
  | .int n => some (.finite n)
  | .float x => some x
  | _ => Option.none

mutual

/-- `==` -/
def eq : Value → Value → Bool
  | .none, .none => true
  | .str s, .str t => s == t
  | .list xs, .list ys => eqItems xs ys
  | .dict m, .dict m' => m.length == m'.length && eqMembers m m'
  | a, b =>
    match a.number?, b.number? with
    | some x, some y => x != .nan && x == y
    | _, _ => false

def eqItems : List Value → List Value → Bool
  | [], [] => true
  | x :: xs, y :: ys => eq x y && eqItems xs ys
  | _, _ => false

def eqMembers : List (Str × Value) → Dict → Bool
  | [], _ => true
  | kv :: rest, m' => eqMember kv m' && eqMembers rest m'

def eqMember : Str × Value → Dict → Bool
  | (k, v), m' =>
    match m'.lookup k with
    | some v' => eq v v'
    | Option.none => false

end

theorem eq_str {v : Value} {s : Str} : v.eq (.str s) = true ↔ v = .str s := by
  cases v <;> simp [eq, number?]

end Value

/-! ### Exceptions -/

/-- What a script raises: an error of its own with its text, one of the built-in
errors it distinguishes, or any other. -/
inductive Exc
  | own (message : String)
  | keyError
  | typeError
  | attributeError
  | jsonDecodeError
  | other
  deriving DecidableEq

/-- `iter(v)` -/
def iter : Value → Except Exc (List Value)
  | .list items => .ok items
  | .dict members => .ok (members.map fun kv => .str kv.1)
  | .str s => .ok (s.map fun c => .str [c])
  | _ => .error .typeError

/-- `[x for x in xs if p(x)]` -/
def filter (p : Value → Except Exc Bool) : List Value → Except Exc (List Value)
  | [] => .ok []
  | x :: xs => do
    let keep ← p x
    let rest ← filter p xs
    .ok (if keep then x :: rest else rest)

/-! ### Texts and bytes -/

/-- The UTF-8 bytes of a code point; a surrogate has none. -/
def utf8Char (c : ℕ) : Except Exc (List UInt8) :=
  if c < 0x80 then .ok [UInt8.ofNat c]
  else if c < 0x800 then .ok [UInt8.ofNat (0xc0 + c / 64), UInt8.ofNat (0x80 + c % 64)]
  else if 0xd800 ≤ c ∧ c < 0xe000 then .error .other
  else if c < 0x10000 then
    .ok [UInt8.ofNat (0xe0 + c / 4096), UInt8.ofNat (0x80 + c / 64 % 64), UInt8.ofNat (0x80 + c % 64)]
  else
    .ok [UInt8.ofNat (0xf0 + c / 262144), UInt8.ofNat (0x80 + c / 4096 % 64), UInt8.ofNat (0x80 + c / 64 % 64),
      UInt8.ofNat (0x80 + c % 64)]

/-- `s.encode("utf-8")` -/
def encodeUtf8 : Str → Except Exc (List UInt8)
  | [] => .ok []
  | c :: s => do
    let b ← utf8Char c
    let bs ← encodeUtf8 s
    .ok (b ++ bs)

/-- `s.encode("ascii")` -/
def encodeAscii (s : Str) : Except Exc (List UInt8) :=
  if s.all (· < 128) then .ok (s.map UInt8.ofNat) else .error .other

/-- `b.decode("ascii")` -/
def decodeAscii (b : List UInt8) : Except Exc Str :=
  if b.all (· < 128) then .ok (b.map UInt8.toNat) else .error .other

/-! ### `json.dumps(v, indent=2)` -/

def hexDigit (n : ℕ) : ℕ := if n < 10 then 48 + n else 87 + n

/-- A UTF-16 unit, escaped. -/
def escapeUnit (n : ℕ) : Str :=
  lit "\\u" ++ [hexDigit (n / 4096 % 16), hexDigit (n / 256 % 16), hexDigit (n / 16 % 16), hexDigit (n % 16)]

/-- One character of a string: printable ASCII as it is, all else escaped. -/
def escapeChar (c : ℕ) : Str :=
  if c = 34 ∨ c = 92 then [92, c]
  else if c = 10 then lit "\\n"
  else if c = 13 then lit "\\r"
  else if c = 9 then lit "\\t"
  else if c = 12 then lit "\\f"
  else if c = 8 then lit "\\b"
  else if 32 ≤ c ∧ c ≤ 126 then [c]
  else if c < 0x10000 then escapeUnit c
  else escapeUnit (0xd800 + (c - 0x10000) / 1024 % 1024) ++ escapeUnit (0xdc00 + (c - 0x10000) % 1024)

def dumpsStr (s : Str) : Str := 34 :: (s.flatMap escapeChar ++ [34])

def dumpsInt (n : ℤ) : Str := (if n < 0 then [45] else []) ++ lit (toString n.natAbs)

def newline (level : ℕ) : Str := 10 :: List.replicate (2 * level) 32

section Dumps

-- `repr` of a finite `float`
variable (floatRepr : ℚ → Str)

def dumpsFloat : Float → Str
  | .finite q => floatRepr q
  | .inf negative => if negative then lit "-Infinity" else lit "Infinity"
  | .nan => lit "NaN"

mutual

/-- A value as it stands at a level of indentation. -/
def dumps (level : ℕ) : Value → Str
  | .none => lit "null"
  | .bool b => if b then lit "true" else lit "false"
  | .int n => dumpsInt n
  | .float x => dumpsFloat floatRepr x
  | .str s => dumpsStr s
  | .list [] => lit "[]"
  | .list (x :: xs) =>
    91 :: (newline (level + 1) ++ dumps (level + 1) x ++ dumpsItems (level + 1) xs ++ newline level ++ [93])
  | .dict [] => [123, 125]
  | .dict (m :: ms) =>
    123 :: (newline (level + 1) ++ dumpsMember (level + 1) m ++ dumpsMembers (level + 1) ms ++ newline level ++ [125])

def dumpsItems (level : ℕ) : List Value → Str
  | [] => []
  | x :: xs => 44 :: (newline level ++ dumps level x ++ dumpsItems level xs)

def dumpsMembers (level : ℕ) : List (Str × Value) → Str
  | [] => []
  | m :: ms => 44 :: (newline level ++ dumpsMember level m ++ dumpsMembers level ms)

def dumpsMember (level : ℕ) : Str × Value → Str
  | (k, v) => dumpsStr k ++ lit ": " ++ dumps level v

end

end Dumps

/-! ### Facts -/

theorem perm_sorted (xs : List Str) : (sorted xs).Perm xs := List.perm_insertionSort _ xs

theorem lookup_of_mem {m : Dict} (h : (m.map Prod.fst).Nodup) {x : Str × Value} (hx : x ∈ m) :
    m.lookup x.1 = some x.2 := by
  induction m with
  | nil => simp at hx
  | cons y m ih =>
    rw [List.map_cons, List.nodup_cons] at h
    rcases List.mem_cons.mp hx with rfl | hx
    · rw [List.lookup_cons, beq_self_eq_true]
    · have hne : (x.1 == y.1) = false := by
        rw [beq_eq_false_iff_ne]
        intro heq
        exact h.1 (heq ▸ List.mem_map_of_mem hx)
      rw [List.lookup_cons, hne]
      exact ih h.2 hx

namespace Value

theorem eq_list_self {xs : List Value} (h : ∀ x ∈ xs, x.eq x = true) : (Value.list xs).eq (.list xs) = true := by
  rw [eq]
  induction xs with
  | nil => rw [eqItems]
  | cons x xs ih =>
    rw [eqItems, h x List.mem_cons_self, ih fun y hy => h y (List.mem_cons_of_mem x hy)]
    rfl

theorem eqMembers_of {ms m : Dict} (h : ∀ x ∈ ms, eqMember x m = true) : eqMembers ms m = true := by
  induction ms with
  | nil => rw [eqMembers]
  | cons x ms ih =>
    rw [eqMembers, h x List.mem_cons_self, ih fun y hy => h y (List.mem_cons_of_mem x hy)]
    rfl

/-- A dictionary equals itself, if its values do. -/
theorem eq_dict_self {m : Dict} (hkeys : (m.map Prod.fst).Nodup) (h : ∀ x ∈ m, x.2.eq x.2 = true) :
    (Value.dict m).eq (.dict m) = true := by
  rw [eq, beq_self_eq_true, Bool.true_and]
  apply eqMembers_of
  intro x hx
  rw [eqMember, lookup_of_mem hkeys hx]
  exact h x hx

end Value

theorem length_escapeChar (c : ℕ) : 1 ≤ (escapeChar c).length := by
  unfold escapeChar
  split_ifs <;> simp [lit, escapeUnit]

theorem length_dumpsStr (s : Str) : s.length + 2 ≤ (dumpsStr s).length := by
  have hbody : s.length ≤ (s.flatMap escapeChar).length := by
    induction s with
    | nil => simp
    | cons c s ih =>
      have hc := length_escapeChar c
      rw [List.flatMap_cons, List.length_append, List.length_cons]
      omega
  rw [dumpsStr, List.length_cons, List.length_append, List.length_singleton]
  omega

/-- A list is written with every one of its items. -/
theorem length_dumps_list {floatRepr : ℚ → Str} {size : Value → ℕ} {xs : List Value} (level : ℕ)
    (h : ∀ x ∈ xs, size x ≤ (dumps floatRepr (level + 1) x).length) :
    (xs.map size).sum ≤ (dumps floatRepr level (.list xs)).length := by
  have hitems : ∀ ys : List Value, (∀ y ∈ ys, size y ≤ (dumps floatRepr (level + 1) y).length) →
      (ys.map size).sum ≤ (dumpsItems floatRepr (level + 1) ys).length := by
    intro ys hys
    induction ys with
    | nil => simp
    | cons y ys ih =>
      have hy := hys y List.mem_cons_self
      have hrest := ih fun z hz => hys z (List.mem_cons_of_mem y hz)
      rw [List.map_cons, List.sum_cons, dumpsItems, List.length_cons, List.length_append, List.length_append]
      omega
  cases xs with
  | nil => simp
  | cons x xs =>
    have hx := h x List.mem_cons_self
    have hrest := hitems xs fun y hy => h y (List.mem_cons_of_mem x hy)
    simp only [dumps, List.map_cons, List.sum_cons, List.length_cons, List.length_append]
    omega

theorem length_encodeUtf8 {s : Str} {b : List UInt8} (h : encodeUtf8 s = .ok b) : s.length ≤ b.length := by
  induction s generalizing b with
  | nil => simp
  | cons c s ih =>
    obtain ⟨bc, hc, hrest⟩ := Except.bind_eq_ok.mp h
    obtain ⟨bs, hs, heq⟩ := Except.bind_eq_ok.mp hrest
    have hchar : 1 ≤ bc.length := by
      unfold utf8Char at hc
      split_ifs at hc <;> rw [← Except.ok.inj hc] <;> simp
    have hlen := ih hs
    rw [← Except.ok.inj heq, List.length_append, List.length_cons]
    omega

theorem encodeUtf8_ascii {s : Str} (h : ∀ c ∈ s, c < 128) : encodeUtf8 s = .ok (s.map UInt8.ofNat) := by
  induction s with
  | nil => rfl
  | cons c s ih =>
    obtain ⟨hc, hs⟩ := List.forall_mem_cons.mp h
    rw [encodeUtf8, utf8Char, if_pos hc, ih hs]
    rfl

/-! What `json.dumps` writes is ASCII. -/

def IsAscii (s : Str) : Prop := ∀ c ∈ s, c < 128

theorem IsAscii.append {s t : Str} (hs : IsAscii s) (ht : IsAscii t) : IsAscii (s ++ t) := by
  intro c hc
  rcases List.mem_append.mp hc with hc | hc
  · exact hs c hc
  · exact ht c hc

theorem IsAscii.cons {c : ℕ} {s : Str} (hc : c < 128) (hs : IsAscii s) : IsAscii (c :: s) :=
  List.forall_mem_cons.mpr ⟨hc, hs⟩

theorem isAscii_nil : IsAscii [] := List.forall_mem_nil _

theorem isAscii_lit {s : String} (h : (lit s).all (· < 128) = true) : IsAscii (lit s) := by
  intro c hc
  simpa using List.all_eq_true.mp h c hc

theorem hexDigit_lt (n : ℕ) : hexDigit (n % 16) < 128 := by
  unfold hexDigit
  split_ifs <;> omega

theorem isAscii_escapeUnit (n : ℕ) : IsAscii (escapeUnit n) :=
  (isAscii_lit (by decide)).append (.cons (hexDigit_lt _) (.cons (hexDigit_lt _) (.cons (hexDigit_lt _)
    (.cons (hexDigit_lt n) isAscii_nil))))

theorem isAscii_escapeChar (c : ℕ) : IsAscii (escapeChar c) := by
  unfold escapeChar
  split_ifs with h1 h2 h3 h4 h5 h6 h7
  · exact .cons (by omega) (.cons (by omega) isAscii_nil)
  · exact isAscii_lit (by decide)
  · exact isAscii_lit (by decide)
  · exact isAscii_lit (by decide)
  · exact isAscii_lit (by decide)
  · exact isAscii_lit (by decide)
  · exact .cons (by omega) isAscii_nil
  · exact isAscii_escapeUnit c
  · exact (isAscii_escapeUnit _).append (isAscii_escapeUnit _)

theorem isAscii_dumpsStr (s : Str) : IsAscii (dumpsStr s) := by
  refine .cons (by omega) (IsAscii.append ?_ (.cons (by omega) isAscii_nil))
  intro c hc
  obtain ⟨d, -, hc⟩ := List.mem_flatMap.mp hc
  exact isAscii_escapeChar d c hc

theorem isAscii_newline (level : ℕ) : IsAscii (newline level) := by
  refine .cons (by omega) fun c hc => ?_
  rw [List.eq_of_mem_replicate hc]
  omega

theorem isAscii_dumpsInt (n : ℤ) : IsAscii (dumpsInt n) := by
  have hsign : IsAscii (if n < 0 then [45] else []) := by
    split_ifs
    · exact .cons (by omega) isAscii_nil
    · exact isAscii_nil
  refine hsign.append fun c hc => ?_
  obtain ⟨d, hd, rfl⟩ := List.mem_map.mp hc
  have hdigit : d.isDigit = true := by
    have hmem : d ∈ Nat.toDigits 10 n.natAbs := by
      simpa [Nat.toString_eq_repr, Nat.repr] using hd
    exact Nat.isDigit_of_mem_toDigits (by omega) (by omega) hmem
  rw [Char.isDigit_iff_toNat] at hdigit
  have hnine : '9'.toNat = 57 := rfl
  omega

section DumpsAscii

variable {floatRepr : ℚ → Str}

theorem isAscii_dumpsFloat (hfloat : ∀ q, IsAscii (floatRepr q)) (x : Float) : IsAscii (dumpsFloat floatRepr x) := by
  cases x with
  | finite q => exact hfloat q
  | inf negative => cases negative <;> exact isAscii_lit (by decide)
  | nan => exact isAscii_lit (by decide)

mutual

theorem isAscii_dumps (hfloat : ∀ q, IsAscii (floatRepr q)) (level : ℕ) : ∀ v : Value, IsAscii (dumps floatRepr level v)
  | .none => isAscii_lit (by decide)
  | .bool true => isAscii_lit (by decide)
  | .bool false => isAscii_lit (by decide)
  | .int n => isAscii_dumpsInt n
  | .float x => isAscii_dumpsFloat hfloat x
  | .str s => isAscii_dumpsStr s
  | .list [] => isAscii_lit (by decide)
  | .list (x :: xs) =>
    .cons (by omega) (((((isAscii_newline _).append (isAscii_dumps hfloat (level + 1) x)).append
      (isAscii_dumpsItems hfloat (level + 1) xs)).append (isAscii_newline _)).append (.cons (by omega) isAscii_nil))
  | .dict [] => .cons (by omega) (.cons (by omega) isAscii_nil)
  | .dict (m :: ms) =>
    .cons (by omega) (((((isAscii_newline _).append (isAscii_dumpsMember hfloat (level + 1) m)).append
      (isAscii_dumpsMembers hfloat (level + 1) ms)).append (isAscii_newline _)).append (.cons (by omega) isAscii_nil))

theorem isAscii_dumpsItems (hfloat : ∀ q, IsAscii (floatRepr q)) (level : ℕ) : ∀ xs : List Value, IsAscii (dumpsItems floatRepr level xs)
  | [] => isAscii_nil
  | x :: xs =>
    .cons (by omega) (((isAscii_newline _).append (isAscii_dumps hfloat level x)).append (isAscii_dumpsItems hfloat level xs))

theorem isAscii_dumpsMembers (hfloat : ∀ q, IsAscii (floatRepr q)) (level : ℕ) : ∀ ms : List (Str × Value), IsAscii (dumpsMembers floatRepr level ms)
  | [] => isAscii_nil
  | m :: ms =>
    .cons (by omega) (((isAscii_newline _).append (isAscii_dumpsMember hfloat level m)).append (isAscii_dumpsMembers hfloat level ms))

theorem isAscii_dumpsMember (hfloat : ∀ q, IsAscii (floatRepr q)) (level : ℕ) : ∀ m : Str × Value, IsAscii (dumpsMember floatRepr level m)
  | (k, v) => ((isAscii_dumpsStr k).append (isAscii_lit (by decide))).append (isAscii_dumps hfloat level v)

end

end DumpsAscii

theorem encodeAscii_eq_ok {s : Str} {b : List UInt8} :
    encodeAscii s = .ok b ↔ (∀ c ∈ s, c < 128) ∧ b = s.map UInt8.ofNat := by
  unfold encodeAscii
  split_ifs with h
  · simp only [List.all_eq_true, decide_eq_true_eq] at h
    rw [Except.ok.injEq, eq_comm]
    exact (and_iff_right h).symm
  · simp only [List.all_eq_true, decide_eq_true_eq] at h
    simp [h]

theorem decodeAscii_encodeAscii {s : Str} {b : List UInt8} (h : encodeAscii s = .ok b) : decodeAscii b = .ok s := by
  obtain ⟨hs, rfl⟩ := encodeAscii_eq_ok.mp h
  have hback : ∀ c ∈ s, (UInt8.ofNat c).toNat = c := by
    intro c hc
    rw [UInt8.toNat_ofNat']
    have := hs c hc
    omega
  have hascii : (s.map UInt8.ofNat).all (· < 128) = true := by
    rw [List.all_map, List.all_eq_true]
    intro c hc
    have hc' := hback c hc
    have hlt := hs c hc
    simp only [Function.comp_apply, decide_eq_true_eq, UInt8.lt_iff_toNat_lt]
    rw [hc']
    exact hlt
  rw [decodeAscii, if_pos hascii, List.map_map]
  congr 1
  calc s.map (UInt8.toNat ∘ UInt8.ofNat) = s.map id := List.map_congr_left hback
    _ = s := List.map_id s

theorem filter_eq_ok {p : Value → Except Exc Bool} {xs ys : List Value} (h : filter p xs = .ok ys) :
    (∀ x ∈ xs, ∃ keep, p x = .ok keep) ∧ ys = xs.filter fun x => p x = .ok true := by
  induction xs generalizing ys with
  | nil =>
    obtain rfl := Except.ok.inj h
    simp
  | cons x xs ih =>
    cases hp : p x with
    | error e => simp [filter, hp, bind, Except.bind] at h
    | ok keep =>
      cases hrest : filter p xs with
      | error e => simp [filter, hp, hrest, bind, Except.bind] at h
      | ok rest =>
        obtain ⟨htried, rfl⟩ := ih hrest
        simp only [filter, hp, hrest, bind, Except.bind, Except.ok.injEq] at h
        refine ⟨fun y hy => ?_, ?_⟩
        · rcases List.mem_cons.mp hy with rfl | hy
          · exact ⟨keep, hp⟩
          · exact htried y hy
        · rw [← h]
          cases keep <;> simp [hp]

end Py
