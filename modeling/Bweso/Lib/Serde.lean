import Mathlib.Tactic

/-! Parsed JSON documents and how a derived decoder reads a struct from one: the
members by name from an object or by position from an array, each given at most
once, with a default where the struct declares one. Over it, what changes when
explicit nulls are inserted for absent members. -/

namespace Serde

abbrev Key := List Char

/-- A parsed document. An object keeps its members as they come, duplicates
included; a number is an integer or it is not. -/
inductive Json
  | null
  | bool (b : Bool)
  | int (n : ℤ)
  | float (text : List Char)
  | str (s : List Char)
  | arr (items : List Json)
  | obj (members : List (Key × Json))

/-- A declared member: its name and the other names it answers to. -/
structure Member where
  name : Key
  aliases : List Key

def Member.names (m : Member) : List Key := m.name :: m.aliases

/-! ### Structs -/

/-- What an object gives a member, and `none` when it gives it twice. -/
def ofObject (m : Member) (o : List (Key × Json)) : Option (Option Json) :=
  match o.filter fun p => m.names.contains p.1 with
  | [] => some none
  | [p] => some (some p.2)
  | _ => none

/-- The members of a struct in an object; names it does not declare are ignored. -/
def fromObject (o : List (Key × Json)) : List Member → Option (List (Option Json))
  | [] => some []
  | m :: ms => do
    let v ← ofObject m o
    let vs ← fromObject o ms
    return v :: vs

/-- The members of a struct in an array, by position; a surplus item is an error. -/
def fromArray : List Member → List Json → Option (List (Option Json))
  | [], [] => some []
  | [], _ :: _ => none
  | _ :: ms, [] => (fromArray ms []).map (none :: ·)
  | _ :: ms, v :: l => (fromArray ms l).map (some v :: ·)

/-- `deserialize_struct`: the value given for each declared member, in order. -/
def readStruct (ms : List Member) : Json → Option (List (Option Json))
  | .obj o => fromObject o ms
  | .arr l => fromArray ms l
  | _ => none

/-! ### Values -/

/-- `String` -/
def string : Json → Option (List Char)
  | .str s => some s
  | _ => none

/-- `u8` -/
def u8 : Json → Option ℕ
  | .int n => if 0 ≤ n ∧ n ≤ 255 then some n.toNat else none
  | _ => none

variable {α : Type}

/-- `Option<T>` -/
def option (f : Json → Option α) : Json → Option (Option α)
  | .null => some none
  | v => (f v).map some

/-- The items of a `Vec<T>`, in order, up to the first that does not decode. -/
def items (f : Json → Option α) : List Json → Option (List α)
  | [] => some []
  | v :: l => do
    let a ← f v
    let as ← items f l
    return a :: as

/-- `Vec<T>` -/
def vec (f : Json → Option α) : Json → Option (List α)
  | .arr l => items f l
  | _ => none

/-- A member without default. -/
def required (f : Json → Option α) : Option Json → Option α
  | none => none
  | some v => f v

/-- A member under `#[serde(default)]`: the default stands for an absent member only. -/
def orDefault (f : Json → Option α) (default : α) : Option Json → Option α
  | none => some default
  | some v => f v

/-! ### Inserting nulls -/

section
variable (opt : List Key) (R : Key → Json → Json → Prop)

/-- `o'` is `o` with values changed as `R` allows and with nulls for members of
`opt` that are not `taken`, each once and anywhere. -/
inductive ObjectInserted : List Key → List (Key × Json) → List (Key × Json) → Prop
  | nil (taken : List Key) : ObjectInserted taken [] []
  | keep {taken : List Key} {k : Key} {v v' : Json} {o o' : List (Key × Json)} :
      R k v v' → ObjectInserted taken o o' → ObjectInserted taken ((k, v) :: o) ((k, v') :: o')
  | insert {taken : List Key} {k : Key} {o o' : List (Key × Json)} :
      k ∈ opt → k ∉ taken → ObjectInserted (k :: taken) o o' → ObjectInserted taken o ((k, .null) :: o')

/-- The same inside the values of a struct given by position. -/
inductive ArrayInserted : List Member → List Json → List Json → Prop
  | nil (ms : List Member) : ArrayInserted ms [] []
  | surplus (l : List Json) : ArrayInserted [] l l
  | cons {m : Member} {ms : List Member} {v v' : Json} {l l' : List Json} :
      R m.name v v' → ArrayInserted ms l l' → ArrayInserted (m :: ms) (v :: l) (v' :: l')

/-- The same for a struct: the absent members of an object are those it does not name. -/
inductive StructInserted (ms : List Member) : Json → Json → Prop
  | obj {o o' : List (Key × Json)} : ObjectInserted opt R (o.map Prod.fst) o o' → StructInserted ms (.obj o) (.obj o')
  | arr {l l' : List Json} : ArrayInserted R ms l l' → StructInserted ms (.arr l) (.arr l')
  | same (j : Json) : StructInserted ms j j

/-- Values of a member before and after: absent members of `opt` may turn to null. -/
inductive Given (m : Member) : Option Json → Option Json → Prop
  | absent : Given m none none
  | nulled : m.name ∈ opt → Given m none (some .null)
  | given {v v' : Json} : R m.name v v' → Given m (some v) (some v')

inductive AllGiven : List Member → List (Option Json) → List (Option Json) → Prop
  | nil : AllGiven [] [] []
  | cons {m : Member} {ms : List Member} {r r' : Option Json} {rs rs' : List (Option Json)} :
      Given opt R m r r' → AllGiven ms rs rs' → AllGiven (m :: ms) (r :: rs) (r' :: rs')

end

/-- The same in every item of an array. -/
inductive ItemsInserted (S : Json → Json → Prop) : Json → Json → Prop
  | arr {l l' : List Json} : List.Forall₂ S l l' → ItemsInserted S (.arr l) (.arr l')
  | same (j : Json) : ItemsInserted S j j

variable {opt : List Key} {R : Key → Json → Json → Prop} {m : Member} {ms : List Member} {taken : List Key}
  {o o' : List (Key × Json)} {l l' : List Json}

/-- The entries of one member: they match, or a null came where there was none. -/
theorem ObjectInserted.filter (h : ObjectInserted opt R taken o o') (hkeys : ∀ p ∈ o, p.1 ∈ taken)
    (hm : ∀ k ∈ m.names, k ∈ opt → m.names = [k]) :
    List.Forall₂ (fun p p' => p'.1 = p.1 ∧ R p.1 p.2 p'.2) (o.filter fun p => m.names.contains p.1)
        (o'.filter fun p => m.names.contains p.1) ∨
      (m.names = [m.name] ∧ m.name ∈ opt ∧ m.name ∉ taken ∧ (o.filter fun p => m.names.contains p.1) = [] ∧
        (o'.filter fun p => m.names.contains p.1) = [(m.name, .null)]) := by
  induction h with
  | nil taken => exact Or.inl List.Forall₂.nil
  | @keep taken k v v' o o' hR _ ih =>
    have ih := ih fun p hp => hkeys p (by simp [hp])
    have hk := hkeys (k, v) (by simp)
    by_cases hmem : k ∈ m.names
    · rcases ih with ih | ⟨hnames, -, hfree, -⟩
      · refine Or.inl ?_
        rw [List.filter_cons, if_pos (by simpa using hmem), List.filter_cons, if_pos (by simpa using hmem)]
        exact List.Forall₂.cons ⟨rfl, hR⟩ ih
      · -- the member is present, so it cannot be one that was inserted
        rw [hnames, List.mem_singleton] at hmem
        exact absurd (hmem ▸ hk) hfree
    · simpa [List.filter_cons, hmem] using ih
  | @insert taken k o o' hopt hfree _ ih =>
    have ih := ih fun p hp => List.mem_cons_of_mem _ (hkeys p hp)
    by_cases hmem : k ∈ m.names
    · have hnames := hm k hmem hopt
      obtain rfl : m.name = k := by
        have : m.name ∈ m.names := List.mem_cons_self
        rw [hnames] at this
        exact List.mem_singleton.mp this
      have hnone : (o.filter fun p => m.names.contains p.1) = [] := by
        rw [List.filter_eq_nil_iff]
        intro p hp hpm
        rw [List.contains_iff_mem, hnames, List.mem_singleton] at hpm
        exact hfree (hpm ▸ hkeys p hp)
      rcases ih with ih | ⟨-, -, hfree', -⟩
      · rw [hnone, List.forall₂_nil_left_iff] at ih
        refine Or.inr ⟨hnames, hopt, hfree, hnone, ?_⟩
        rw [List.filter_cons, if_pos (by simp [hmem]), ih]
      · exact absurd List.mem_cons_self hfree'
    · rcases ih with ih | ⟨hnames, hopt', hfree', hnone, hone⟩
      · exact Or.inl (by simpa [List.filter_cons, hmem] using ih)
      · refine Or.inr ⟨hnames, hopt', fun h => hfree' (List.mem_cons_of_mem _ h), hnone, ?_⟩
        simpa [List.filter_cons, hmem] using hone

/-- What an object gives a member, before and after. -/
theorem ObjectInserted.given (h : ObjectInserted opt R (o.map Prod.fst) o o')
    (hm : ∀ k ∈ m.names, k ∈ opt → m.names = [k]) (hR : ∀ k ∈ m.names, ∀ v v', R k v v' → R m.name v v') :
    (ofObject m o = none ∧ ofObject m o' = none) ∨
      ∃ r r', ofObject m o = some r ∧ ofObject m o' = some r' ∧ Given opt R m r r' := by
  have hkeys : ∀ p ∈ o, p.1 ∈ o.map Prod.fst := fun p hp => List.mem_map_of_mem hp
  have hnamed : ∀ p ∈ o.filter fun p => m.names.contains p.1, p.1 ∈ m.names := by
    intro p hp
    simpa using (List.mem_filter.mp hp).2
  unfold ofObject
  rcases h.filter hkeys hm with hf | ⟨-, hopt, -, hnone, hone⟩
  · generalize (o.filter fun p => m.names.contains p.1) = a at hf hnamed
    generalize (o'.filter fun p => m.names.contains p.1) = a' at hf
    match hf with
    | .nil => exact Or.inr ⟨none, none, rfl, rfl, .absent⟩
    | .cons hp .nil =>
      exact Or.inr ⟨_, _, rfl, rfl, .given (hR _ (hnamed _ (by simp)) _ _ hp.2)⟩
    | .cons _ (.cons _ _) => exact Or.inl ⟨rfl, rfl⟩
  · rw [hnone, hone]
    exact Or.inr ⟨none, some .null, rfl, rfl, .nulled hopt⟩

/-- What a struct reads before and after: nothing both times, or members that
differ by the nulls only. -/
def SameReads (opt : List Key) (R : Key → Json → Json → Prop) (ms : List Member)
    (r r' : Option (List (Option Json))) : Prop :=
  (r = none ∧ r' = none) ∨ ∃ rs rs', r = some rs ∧ r' = some rs' ∧ AllGiven opt R ms rs rs'

theorem ObjectInserted.reads (h : ObjectInserted opt R (o.map Prod.fst) o o')
    (hm : ∀ m ∈ ms, ∀ k ∈ m.names, k ∈ opt → m.names = [k])
    (hR : ∀ m ∈ ms, ∀ k ∈ m.names, ∀ v v', R k v v' → R m.name v v') :
    SameReads opt R ms (fromObject o ms) (fromObject o' ms) := by
  induction ms with
  | nil => exact Or.inr ⟨[], [], rfl, rfl, .nil⟩
  | cons m ms ih =>
    have ih := ih (fun x hx => hm x (by simp [hx])) (fun x hx => hR x (by simp [hx]))
    unfold fromObject
    rcases h.given (hm m (by simp)) (hR m (by simp)) with ⟨h1, h2⟩ | ⟨r, r', h1, h2, hg⟩
    · rw [h1, h2]
      exact Or.inl ⟨rfl, rfl⟩
    · rw [h1, h2]
      rcases ih with ⟨ih1, ih2⟩ | ⟨rs, rs', ih1, ih2, hall⟩
      · rw [ih1, ih2]
        exact Or.inl ⟨rfl, rfl⟩
      · rw [ih1, ih2]
        exact Or.inr ⟨r :: rs, r' :: rs', rfl, rfl, .cons hg hall⟩

theorem ArrayInserted.reads (h : ArrayInserted R ms l l') :
    SameReads [] R ms (fromArray ms l) (fromArray ms l') := by
  induction h with
  | nil ms =>
    induction ms with
    | nil => exact Or.inr ⟨[], [], rfl, rfl, .nil⟩
    | cons m ms ih =>
      unfold fromArray
      rcases ih with ⟨ih1, -⟩ | ⟨rs, rs', ih1, ih2, hall⟩
      · rw [ih1]
        exact Or.inl ⟨rfl, rfl⟩
      · rw [ih1] at ih2
        obtain rfl := Option.some.inj ih2
        rw [ih1]
        exact Or.inr ⟨none :: rs, none :: rs, rfl, rfl, .cons .absent hall⟩
  | surplus l =>
    cases l with
    | nil => exact Or.inr ⟨[], [], rfl, rfl, .nil⟩
    | cons v l => exact Or.inl ⟨rfl, rfl⟩
  | @cons m ms v v' l l' hv _ ih =>
    unfold fromArray
    rcases ih with ⟨ih1, ih2⟩ | ⟨rs, rs', ih1, ih2, hall⟩
    · rw [ih1, ih2]
      exact Or.inl ⟨rfl, rfl⟩
    · rw [ih1, ih2]
      exact Or.inr ⟨some v :: rs, some v' :: rs', rfl, rfl, .cons (.given hv) hall⟩

/-- A member read from an object is an entry of it under one of its names. -/
theorem ofObject_eq_some {v : Json} {r : Option Json} (h : ofObject m o = some r) :
    r = some v ↔ ∃ k ∈ m.names, (k, v) ∈ o := by
  have hmem : ∀ p : Key × Json, p ∈ (o.filter fun p => m.names.contains p.1) ↔ p.1 ∈ m.names ∧ p ∈ o := by
    intro p
    rw [List.mem_filter, List.contains_iff_mem, and_comm]
  unfold ofObject at h
  generalize (o.filter fun p => m.names.contains p.1) = found at h hmem
  match found, h with
  | [], h =>
    obtain rfl := Option.some.inj h
    simp only [reduceCtorEq, false_iff, not_exists, not_and]
    intro k hk hkv
    simpa using (hmem (k, v)).mpr ⟨hk, hkv⟩
  | [p], h =>
    obtain rfl := Option.some.inj h
    refine ⟨fun hv => ?_, fun hiff => ?_⟩
    · obtain rfl := Option.some.inj hv
      obtain ⟨hk, hp⟩ := (hmem p).mp (by simp)
      exact ⟨p.1, hk, hp⟩
    · obtain ⟨k, hk, hkv⟩ := hiff
      have hone := (hmem (k, v)).mpr ⟨hk, hkv⟩
      rw [List.mem_singleton] at hone
      rw [← hone]

/-- Each member is read by itself. -/
theorem fromObject_get {rs : List (Option Json)} (h : fromObject o ms = some rs) {i : ℕ} (hi : ms[i]? = some m) :
    ∃ r, rs[i]? = some r ∧ ofObject m o = some r := by
  induction ms generalizing rs i with
  | nil => simp at hi
  | cons m' ms ih =>
    simp only [fromObject, Option.bind_eq_bind, Option.bind_eq_some_iff, Option.pure_def, Option.some.injEq] at h
    obtain ⟨r, hr, rs, hrs, rfl⟩ := h
    cases i with
    | zero =>
      rw [List.getElem?_cons_zero, Option.some.injEq] at hi
      exact ⟨r, rfl, hi ▸ hr⟩
    | succ i => exact ih hrs hi

/-! ### Decoders that do not see the nulls -/

variable {f : Json → Option α} {S : Json → Json → Prop} {r r' : Option Json} {v v' : Json}

/-- An optional member reads the same with a null in its place. -/
theorem Given.orDefault_option (h : Given opt R m r r') (hR : ∀ v v', R m.name v v' → option f v' = option f v) :
    orDefault (option f) none r' = orDefault (option f) none r := by
  cases h with
  | absent => rfl
  | nulled => rfl
  | given hv => exact hR _ _ hv

/-- A member outside `opt` reads the same. -/
theorem Given.required_eq (h : Given opt R m r r') (hm : m.name ∉ opt) (hR : ∀ v v', R m.name v v' → f v' = f v) :
    required f r' = required f r := by
  cases h with
  | absent => rfl
  | nulled hopt => exact absurd hopt hm
  | given hv => exact hR _ _ hv

theorem StructInserted.option_eq (h : StructInserted opt R ms v v') (hf : f v' = f v) :
    option f v' = option f v := by
  cases h with
  | obj _ => exact congrArg (Option.map some) hf
  | arr _ => exact congrArg (Option.map some) hf
  | same _ => rfl

theorem items_inserted (h : List.Forall₂ S l l') (hf : ∀ v v', S v v' → f v' = f v) : items f l' = items f l := by
  induction h with
  | nil => rfl
  | cons hv _ ih => rw [items, items, hf _ _ hv, ih]

theorem ItemsInserted.vec_eq (h : ItemsInserted S v v') (hf : ∀ v v', S v v' → f v' = f v) :
    vec f v' = vec f v := by
  cases h with
  | arr hl => exact items_inserted hl hf
  | same _ => rfl

end Serde
