import Mathlib.Data.List.TakeWhile
import Mathlib.Tactic
import Bweso.Lib.Text

/-! The Prometheus text exposition format: a reader of its grammar, a writer that
puts one sample on one line, and that reading undoes writing. -/

namespace Exposition

structure Sample where
  name : List Char
  labels : List (List Char × List Char)
  value : List Char
  deriving DecidableEq

/-! ### The grammar -/

def isBlank (c : Char) : Bool := c == ' ' || c == '\t'

def isLabelStart (c : Char) : Bool := c.isAlpha || c == '_'

def isLabelChar (c : Char) : Bool := isLabelStart c || c.isDigit

def isNameStart (c : Char) : Bool := isLabelStart c || c == ':'

def isNameChar (c : Char) : Bool := isNameStart c || c.isDigit

def skipBlanks (s : List Char) : List Char := s.dropWhile isBlank

/-- The longest identifier at the front, and the rest. -/
def ident (start char : Char → Bool) (s : List Char) : Option (List Char × List Char) :=
  if s.head?.any start then some (s.takeWhile char, s.dropWhile char) else none

/-- The three escapes of a label value. -/
def unescape (c : Char) : Option Char :=
  if c = '\\' then some '\\' else if c = '"' then some '"' else if c = 'n' then some '\n' else none

/-- A label value up to its closing quote, and the rest. -/
def quoted : List Char → Option (List Char × List Char)
  | [] => none
  | [c] => if c = '"' then some ([], []) else none
  | c :: d :: s =>
    if c = '"' then some ([], d :: s)
    else if c = '\n' then none
    else if c = '\\' then (unescape d).bind fun x => (quoted s).map fun (value, rest) => (x :: value, rest)
    else (quoted (d :: s)).map fun (value, rest) => (c :: value, rest)

/-- The labels up to the closing brace; a comma may stand before it. -/
def labels : ℕ → List Char → Option (List (List Char × List Char) × List Char)
  | 0, _ => none
  | fuel + 1, s =>
    match skipBlanks s with
    | '}' :: s => some ([], s)
    | s =>
      (ident isLabelStart isLabelChar s).bind fun (name, s) =>
      match skipBlanks s with
      | '=' :: s =>
        match skipBlanks s with
        | '"' :: s =>
          (quoted s).bind fun (value, s) =>
          match skipBlanks s with
          | ',' :: s => (labels fuel s).map fun (rest, s) => ((name, value) :: rest, s)
          | '}' :: s => some ([(name, value)], s)
          | _ => none
        | _ => none
      | _ => none

def dropSign : List Char → List Char
  | '+' :: s | '-' :: s => s
  | s => s

def isDigits (s : List Char) : Bool := !s.isEmpty && s.all Char.isDigit

def isExponent : List Char → Bool
  | [] => true
  | c :: s => (c == 'e' || c == 'E') && isDigits (dropSign s)

/-- A decimal number with an optional fraction and exponent, an infinity or `NaN`. -/
def isNumber (s : List Char) : Bool :=
  let s := dropSign s
  let int := s.takeWhile Char.isDigit
  s == "Inf".toList || s == "NaN".toList ||
    match s.dropWhile Char.isDigit with
    | '.' :: s =>
      !(int ++ s.takeWhile Char.isDigit).isEmpty && isExponent (s.dropWhile Char.isDigit)
    | s => !int.isEmpty && isExponent s

/-- Nothing, or a timestamp. -/
def isTimestamp (s : List Char) : Bool :=
  let token := s.takeWhile fun c => !isBlank c
  (token.isEmpty || isDigits (dropSign token)) && (s.dropWhile fun c => !isBlank c).all isBlank

/-- A line without its line feed. -/
def parseLine (line : List Char) : Option Sample :=
  (ident isNameStart isNameChar (skipBlanks line)).bind fun (name, s) =>
  (match skipBlanks s with
    | '{' :: s => labels (s.length + 1) s
    | s => some ([], s)).bind fun (labels, s) =>
  let s := skipBlanks s
  let value := s.takeWhile fun c => !isBlank c
  if isNumber value && isTimestamp (skipBlanks (s.dropWhile fun c => !isBlank c)) then some ⟨name, labels, value⟩
  else none

/-- Blank lines and comments carry no sample. -/
def isIgnored (line : List Char) : Bool := (skipBlanks line).head?.all (· == '#')

def parseLines : List (List Char) → Option (List Sample)
  | [] => some []
  | line :: lines =>
    if isIgnored line then parseLines lines
    else (parseLine line).bind fun sample => (parseLines lines).map (sample :: ·)

/-- Every line ends with a line feed, the last one too. -/
def parseText (s : List Char) : Option (List Sample) :=
  if (s.splitOn '\n').getLast? = some [] then parseLines (s.splitOn '\n').dropLast else none

/-! ### Writing a sample -/

def escape : Char → List Char
  | '\\' => ['\\', '\\']
  | '"' => ['\\', '"']
  | '\n' => ['\\', 'n']
  | c => [c]

def labelText (label : List Char × List Char) : List Char :=
  label.1 ++ '=' :: '"' :: label.2.flatMap escape ++ ['"']

def Sample.line (m : Sample) : List Char :=
  m.name ++ '{' :: [','].intercalate (m.labels.map labelText) ++ '}' :: ' ' :: m.value

/-- `[A-Za-z_][A-Za-z0-9_]*` -/
def IsIdent (s : List Char) : Prop := s.head?.any isLabelStart = true ∧ s.all isLabelChar = true

instance (s : List Char) : Decidable (IsIdent s) := inferInstanceAs (Decidable (_ ∧ _))

structure Sample.Valid (m : Sample) : Prop where
  name : IsIdent m.name
  labels : ∀ l ∈ m.labels, IsIdent l.1
  value : isNumber m.value = true

theorem IsIdent.head {s : List Char} (h : IsIdent s) : ∃ c t, s = c :: t ∧ isLabelStart c = true := by
  cases s with
  | nil => simp [IsIdent] at h
  | cons c t => exact ⟨c, t, rfl, by simpa using h.1⟩

theorem IsIdent.append {s t : List Char} (h : IsIdent s) (ht : t.all isLabelChar = true) : IsIdent (s ++ t) := by
  obtain ⟨c, u, rfl, hc⟩ := h.head
  refine ⟨hc, ?_⟩
  rw [List.all_append, h.2, ht]
  rfl

/-! ### Reading what was written -/

theorem skipBlanks_of_head {s : List Char} (h : ∀ c, s.head? = some c → isBlank c = false) : skipBlanks s = s := by
  cases s with
  | nil => rfl
  | cons c s => exact List.dropWhile_cons_of_neg (by simp [h c rfl])

theorem ident_append {start char : Char → Bool} {s rest : List Char} (hs : s.head?.any start = true)
    (hall : s.all char = true) (hrest : ∀ c, rest.head? = some c → char c = false) :
    ident start char (s ++ rest) = some (s, rest) := by
  have hhead : (s ++ rest).head?.any start = true := by
    cases s with
    | nil => simp at hs
    | cons c s => exact hs
  have hchars : ∀ c ∈ s, char c = true := by simpa using hall
  rw [ident, if_pos hhead, List.takeWhile_append_of_pos hchars, List.dropWhile_append_of_pos hchars]
  cases rest with
  | nil => simp
  | cons c rest =>
    have hc : ¬ char c = true := by simp [hrest c rfl]
    rw [List.takeWhile_cons_of_neg hc, List.dropWhile_cons_of_neg hc, List.append_nil]

theorem isBlank_of_isLabelStart {c : Char} (h : isLabelStart c = true) : isBlank c = false := by
  by_contra hb
  simp only [isBlank, Bool.not_eq_false, Bool.or_eq_true, beq_iff_eq] at hb
  rcases hb with rfl | rfl
  · exact absurd h (by decide)
  · exact absurd h (by decide)

theorem IsIdent.skipBlanks_append {s : List Char} (h : IsIdent s) (rest : List Char) :
    skipBlanks (s ++ rest) = s ++ rest := by
  obtain ⟨c, t, rfl, hc⟩ := h.head
  refine skipBlanks_of_head fun d hd => ?_
  obtain rfl := Option.some.inj hd
  exact isBlank_of_isLabelStart hc

theorem quoted_quote (rest : List Char) : quoted ('"' :: rest) = some ([], rest) := by
  cases rest <;> simp [quoted]

theorem quoted_cons {c : Char} (hback : c ≠ '\\') (hquote : c ≠ '"') (hfeed : c ≠ '\n') (s : List Char) :
    quoted (c :: s) = (quoted s).map fun (value, rest) => (c :: value, rest) := by
  cases s <;> simp [quoted, hback, hquote, hfeed]

/-- The value comes back whole, whatever stands in it, and the reader stops at
the closing quote. -/
theorem quoted_escape (value rest : List Char) :
    quoted (value.flatMap escape ++ '"' :: rest) = some (value, rest) := by
  induction value with
  | nil => exact quoted_quote rest
  | cons c value ih =>
    rw [List.flatMap_cons, List.append_assoc]
    by_cases hback : c = '\\'
    · subst hback
      simp [escape, quoted, unescape, ih]
    · by_cases hquote : c = '"'
      · subst hquote
        simp [escape, quoted, unescape, ih]
      · by_cases hfeed : c = '\n'
        · subst hfeed
          simp [escape, quoted, unescape, ih]
        · simp [escape, quoted_cons hback hquote hfeed, ih]

/-- One label up to its closing quote. -/
theorem labels_label {l : List Char × List Char} (h : IsIdent l.1) (fuel : ℕ) (rest : List Char) :
    labels (fuel + 1) (labelText l ++ rest) =
      match skipBlanks rest with
      | ',' :: s => (labels fuel s).map fun (ls, s) => (l :: ls, s)
      | '}' :: s => some ([l], s)
      | _ => none := by
  have htext : labelText l ++ rest = l.1 ++ '=' :: '"' :: (l.2.flatMap escape ++ '"' :: rest) := by
    simp [labelText]
  have hname : ident isLabelStart isLabelChar (l.1 ++ '=' :: '"' :: (l.2.flatMap escape ++ '"' :: rest)) =
      some (l.1, '=' :: '"' :: (l.2.flatMap escape ++ '"' :: rest)) := by
    refine ident_append h.1 h.2 fun c hc => ?_
    obtain rfl := Option.some.inj hc
    decide
  rw [htext, labels, h.skipBlanks_append]
  obtain ⟨c, t, hl, hc⟩ := h.head
  have hbrace : c ≠ '}' := by
    rintro rfl
    exact absurd hc (by decide)
  rw [hl] at hname ⊢
  rw [List.cons_append] at hname ⊢
  split
  · rename_i heq
    exact absurd (List.cons.inj heq).1 hbrace
  · rw [hname]
    simp [skipBlanks, isBlank, quoted_escape, ← hl]

theorem labels_text {ls : List (List Char × List Char)} (h : ∀ l ∈ ls, IsIdent l.1) {fuel : ℕ}
    (hfuel : ls.length < fuel) (rest : List Char) :
    labels fuel ([','].intercalate (ls.map labelText) ++ '}' :: rest) = some (ls, rest) := by
  induction ls generalizing fuel with
  | nil =>
    obtain ⟨fuel, rfl⟩ := Nat.exists_eq_add_of_lt hfuel
    simp [labels, skipBlanks, isBlank, List.intercalate]
  | cons l ls ih =>
    obtain ⟨fuel, rfl⟩ : ∃ n, fuel = n + 1 := ⟨fuel - 1, by omega⟩
    have hl := h l List.mem_cons_self
    cases ls with
    | nil =>
      rw [List.map_singleton, List.intercalate_singleton, labels_label hl]
      simp [skipBlanks, isBlank]
    | cons l' ls =>
      have hjoin : [','].intercalate ((l :: l' :: ls).map labelText) =
          labelText l ++ ',' :: [','].intercalate ((l' :: ls).map labelText) := by
        rw [List.map_cons, List.map_cons, List.intercalate_cons_cons, List.append_assoc]
        rfl
      have hrest := @ih (fun k hk => h k (List.mem_cons_of_mem l hk)) fuel (by simpa using hfuel)
      rw [hjoin, List.append_assoc, labels_label hl]
      change (labels fuel ([','].intercalate ((l' :: ls).map labelText) ++ '}' :: rest)).map
        (fun (ls, s) => (l :: ls, s)) = _
      rw [hrest]
      rfl

theorem length_le_labels (ls : List (List Char × List Char)) :
    ls.length ≤ ([','].intercalate (ls.map labelText)).length := by
  induction ls with
  | nil => simp
  | cons l ls ih =>
    cases ls with
    | nil =>
      rw [List.map_singleton, List.intercalate_singleton, labelText, List.length_append]
      exact Nat.le_add_left 1 _
    | cons l' ls =>
      rw [List.map_cons, List.map_cons, List.intercalate_cons_cons, List.length_append, List.length_append]
      simp only [List.length_cons, List.map_cons, List.length_nil] at ih ⊢
      omega

/-! ### Numbers -/

/-- A character a number may have. -/
def isNumberChar (c : Char) : Bool := c.isDigit || "+-.eEInfNa".toList.contains c

theorem isNumberChar_of_dropSign {s : List Char} (h : ∀ c ∈ dropSign s, isNumberChar c = true) :
    ∀ c ∈ s, isNumberChar c = true := by
  intro c hc
  unfold dropSign at h
  split at h
  · rcases List.mem_cons.mp hc with rfl | hc
    · decide
    · exact h c hc
  · rcases List.mem_cons.mp hc with rfl | hc
    · decide
    · exact h c hc
  · exact h c hc

theorem isNumberChar_of_isDigits {s : List Char} (h : s.all Char.isDigit = true) : ∀ c ∈ s, isNumberChar c = true := by
  intro c hc
  simp [isNumberChar, List.all_eq_true.mp h c hc]

theorem isNumberChar_of_isExponent {s : List Char} (h : isExponent s = true) : ∀ c ∈ s, isNumberChar c = true := by
  cases s with
  | nil => simp
  | cons c s =>
    simp only [isExponent, isDigits, Bool.and_eq_true, Bool.or_eq_true, beq_iff_eq] at h
    have hrest := isNumberChar_of_dropSign (isNumberChar_of_isDigits h.2.2)
    intro d hd
    rcases List.mem_cons.mp hd with rfl | hd
    · rcases h.1 with rfl | rfl
      · decide
      · decide
    · exact hrest d hd

/-- Digits at the front, and number characters behind them. -/
theorem isNumberChar_of_dropWhile {s : List Char}
    (h : ∀ c ∈ s.dropWhile Char.isDigit, isNumberChar c = true) : ∀ c ∈ s, isNumberChar c = true := by
  intro c hc
  rw [← s.takeWhile_append_dropWhile (p := Char.isDigit), List.mem_append] at hc
  rcases hc with hc | hc
  · simp [isNumberChar, List.mem_takeWhile_imp hc]
  · exact h c hc

theorem isNumber_chars {s : List Char} (h : isNumber s = true) : ∀ c ∈ s, isNumberChar c = true := by
  apply isNumberChar_of_dropSign
  simp only [isNumber, Bool.or_eq_true, beq_iff_eq] at h
  rcases h with (h | h) | h
  · rw [h]
    exact List.all_eq_true.mp (by decide)
  · rw [h]
    exact List.all_eq_true.mp (by decide)
  · apply isNumberChar_of_dropWhile
    split at h
    · rename_i s' hs
      rw [Bool.and_eq_true] at h
      rw [hs]
      intro c hc
      rcases List.mem_cons.mp hc with rfl | hc
      · decide
      · exact isNumberChar_of_dropWhile (isNumberChar_of_isExponent h.2) c hc
    · rw [Bool.and_eq_true] at h
      exact isNumberChar_of_isExponent h.2

theorem isNumber_ne_nil {s : List Char} (h : isNumber s = true) : s ≠ [] := by
  rintro rfl
  exact absurd h (by decide)

theorem isNumber_of_digits {s : List Char} (hne : s ≠ []) (hs : ∀ c ∈ s, c.isDigit = true) : isNumber s = true := by
  have hsign : dropSign s = s := by
    unfold dropSign
    split
    · exact absurd (hs '+' List.mem_cons_self) (by decide)
    · exact absurd (hs '-' List.mem_cons_self) (by decide)
    · rfl
  have htake : s.takeWhile Char.isDigit = s := List.takeWhile_eq_self_iff.mpr hs
  have hdrop : s.dropWhile Char.isDigit = [] := List.dropWhile_eq_nil_iff.mpr hs
  simp [isNumber, hsign, htake, hdrop, hne, isExponent]

/-! ### Lines -/

theorem IsIdent.name {s : List Char} (h : IsIdent s) : s.head?.any isNameStart = true ∧ s.all isNameChar = true := by
  obtain ⟨hstart, hall⟩ := h
  refine ⟨?_, ?_⟩
  · cases s with
    | nil => simp at hstart
    | cons c s =>
      have hc : isLabelStart c = true := hstart
      simp [isNameStart, hc]
  · rw [List.all_eq_true] at hall ⊢
    intro c hc
    have hchar := hall c hc
    simp only [isLabelChar, Bool.or_eq_true] at hchar
    rcases hchar with hchar | hchar
    · simp [isNameChar, isNameStart, hchar]
    · simp [isNameChar, hchar]

/-- A number is one token, up to the end of its line. -/
theorem value_token {value : List Char} (h : isNumber value = true) :
    skipBlanks value = value ∧ value.takeWhile (fun c => !isBlank c) = value ∧
      value.dropWhile (fun c => !isBlank c) = [] := by
  have hnotBlank : ∀ c ∈ value, (!isBlank c) = true := by
    intro c hc
    have hnum := isNumber_chars h c hc
    by_contra hb
    simp only [isBlank, Bool.not_eq_true, Bool.not_eq_false', Bool.or_eq_true, beq_iff_eq] at hb
    rcases hb with rfl | rfl
    · exact absurd hnum (by decide)
    · exact absurd hnum (by decide)
  refine ⟨skipBlanks_of_head fun c hc => ?_, List.takeWhile_eq_self_iff.mpr hnotBlank,
    List.dropWhile_eq_nil_iff.mpr hnotBlank⟩
  simpa using hnotBlank c (List.mem_of_mem_head? hc)

theorem parseLine_line {m : Sample} (h : m.Valid) : parseLine m.line = some m := by
  obtain ⟨name, ls, value⟩ := m
  obtain ⟨hname, hlabels, hvalue⟩ := h
  dsimp only at hname hlabels hvalue
  obtain ⟨hskip, htake, hdrop⟩ := value_token hvalue
  have htext : Sample.line ⟨name, ls, value⟩ =
      name ++ '{' :: ([','].intercalate (ls.map labelText) ++ '}' :: ' ' :: value) := by
    simp [Sample.line]
  have hident : ident isNameStart isNameChar
      (name ++ '{' :: ([','].intercalate (ls.map labelText) ++ '}' :: ' ' :: value)) =
        some (name, '{' :: ([','].intercalate (ls.map labelText) ++ '}' :: ' ' :: value)) := by
    refine ident_append hname.name.1 hname.name.2 fun c hc => ?_
    obtain rfl := Option.some.inj hc
    decide
  have hfuel : ls.length < ([','].intercalate (ls.map labelText) ++ '}' :: ' ' :: value).length + 1 := by
    have := length_le_labels ls
    rw [List.length_append]
    omega
  have hread := labels_text hlabels hfuel (' ' :: value)
  have hspace : skipBlanks (' ' :: value) = value := hskip
  rw [htext, parseLine, hname.skipBlanks_append, hident, Option.bind_some]
  change (labels _ ([','].intercalate (ls.map labelText) ++ '}' :: ' ' :: value)).bind _ = _
  rw [hread, Option.bind_some]
  dsimp only
  rw [hspace, htake, hdrop, hvalue]
  rfl

/-- A sample without labels. -/
theorem parseLine_bare {name value : List Char} (hname : IsIdent name) (hvalue : isNumber value = true) :
    parseLine (name ++ ' ' :: value) = some ⟨name, [], value⟩ := by
  obtain ⟨hskip, htake, hdrop⟩ := value_token hvalue
  have hident : ident isNameStart isNameChar (name ++ ' ' :: value) = some (name, ' ' :: value) := by
    refine ident_append hname.name.1 hname.name.2 fun c hc => ?_
    obtain rfl := Option.some.inj hc
    decide
  have hspace : skipBlanks (' ' :: value) = value := hskip
  have hbrace : ∀ s, value ≠ '{' :: s := by
    rintro s rfl
    exact absurd (isNumber_chars hvalue '{' List.mem_cons_self) (by decide)
  rw [parseLine, hname.skipBlanks_append, hident, Option.bind_some]
  dsimp only
  rw [hspace]
  split
  · rename_i s
    exact absurd rfl (hbrace s)
  · rw [Option.bind_some]
    dsimp only
    rw [hskip, htake, hdrop, hvalue]
    rfl

theorem lineFeed_not_mem_escape (value : List Char) : '\n' ∉ value.flatMap escape := by
  intro hm
  obtain ⟨c, -, hc⟩ := List.mem_flatMap.mp hm
  unfold escape at hc
  split at hc
  · exact absurd hc (by decide)
  · exact absurd hc (by decide)
  · exact absurd hc (by decide)
  · rename_i hfeed
    exact hfeed (List.mem_singleton.mp hc).symm

theorem IsIdent.lineFeed_not_mem {s : List Char} (h : IsIdent s) : '\n' ∉ s := fun hm =>
  absurd (List.all_eq_true.mp h.2 _ hm) (by decide)

/-- A valid sample has no line feed of its own. -/
theorem lineFeed_not_mem_line {m : Sample} (h : m.Valid) : '\n' ∉ m.line := by
  have hlabels : ∀ l ∈ m.labels, '\n' ∉ labelText l := by
    intro l hl hm
    simp only [labelText, List.mem_append, List.mem_cons, List.not_mem_nil, or_false] at hm
    rcases hm with (hm | hm | hm | hm) | hm
    · exact (h.labels l hl).lineFeed_not_mem hm
    · exact absurd hm (by decide)
    · exact absurd hm (by decide)
    · exact lineFeed_not_mem_escape l.2 hm
    · exact absurd hm (by decide)
  intro hm
  simp only [Sample.line, List.mem_append, List.mem_cons] at hm
  rcases hm with (hm | hm | hm) | hm | hm | hm
  · exact h.name.lineFeed_not_mem hm
  · exact absurd hm (by decide)
  · rcases Text.mem_of_mem_intercalate hm with hm | ⟨text, htext, hm⟩
    · exact absurd hm (by decide)
    · obtain ⟨l, hl, rfl⟩ := List.mem_map.mp htext
      exact hlabels l hl hm
  · exact absurd hm (by decide)
  · exact absurd hm (by decide)
  · exact absurd (isNumber_chars h.value _ hm) (by decide)

theorem IsIdent.isIgnored_append {name : List Char} (h : IsIdent name) (s : List Char) :
    isIgnored (name ++ s) = false := by
  obtain ⟨c, t, hname, hc⟩ := h.head
  have hhead : (name ++ s).head? = some c := by
    rw [hname]
    rfl
  have hhash : c ≠ '#' := by
    rintro rfl
    exact absurd hc (by decide)
  rw [isIgnored, h.skipBlanks_append, hhead]
  simpa using hhash

theorem isIgnored_line {m : Sample} (h : m.Valid) : isIgnored m.line = false := by
  rw [Sample.line, List.append_assoc]
  exact h.name.isIgnored_append _

/-! ### Whole texts -/

inductive Line
  | comment (text : List Char)
  | sample (m : Sample)
  /-- a sample without labels, nor braces -/
  | bare (name value : List Char)

namespace Line

def text : Line → List Char
  | .comment text => '#' :: text
  | .sample m => m.line
  | .bare name value => name ++ ' ' :: value

def sample? : Line → Option Sample
  | .comment _ => none
  | .sample m => some m
  | .bare name value => some ⟨name, [], value⟩

def Valid : Line → Prop
  | .comment text => '\n' ∉ text
  | .sample m => m.Valid
  | .bare name value => IsIdent name ∧ isNumber value = true

theorem Valid.lineFeed_not_mem {l : Line} (h : l.Valid) : '\n' ∉ l.text := by
  cases l with
  | comment text =>
    intro hm
    rcases List.mem_cons.mp hm with hm | hm
    · exact absurd hm (by decide)
    · exact h hm
  | sample m => exact lineFeed_not_mem_line h
  | bare name value =>
    intro hm
    rcases List.mem_append.mp hm with hm | hm
    · exact h.1.lineFeed_not_mem hm
    · rcases List.mem_cons.mp hm with hm | hm
      · exact absurd hm (by decide)
      · exact absurd (isNumber_chars h.2 _ hm) (by decide)

end Line

/-- A text of whole lines. -/
def render (lines : List Line) : List Char := lines.flatMap fun l => l.text ++ ['\n']

theorem render_append (ls ls' : List Line) : render (ls ++ ls') = render ls ++ render ls' := by
  simp [render]

theorem splitOn_render {lines : List Line} (h : ∀ l ∈ lines, l.Valid) :
    (render lines).splitOn '\n' = lines.map Line.text ++ [[]] := by
  induction lines with
  | nil => rfl
  | cons l lines ih =>
    have hrest := ih fun l' hl' => h l' (List.mem_cons_of_mem l hl')
    have hline := (h l List.mem_cons_self).lineFeed_not_mem
    have hcons : render (l :: lines) = l.text ++ '\n' :: render lines := by
      simp [render]
    rw [hcons, List.splitOn_append_cons_self_of_not_mem hline, hrest]
    rfl

theorem parseLines_text {lines : List Line} (h : ∀ l ∈ lines, l.Valid) :
    parseLines (lines.map Line.text) = some (lines.filterMap Line.sample?) := by
  induction lines with
  | nil => rfl
  | cons l lines ih =>
    have hl := h l List.mem_cons_self
    have hrest := ih fun l' hl' => h l' (List.mem_cons_of_mem l hl')
    cases l with
    | comment text => exact hrest
    | sample m =>
      rw [List.map_cons, Line.text, parseLines, isIgnored_line hl, parseLine_line hl, hrest]
      rfl
    | bare name value =>
      rw [List.map_cons, Line.text, parseLines, hl.1.isIgnored_append, parseLine_bare hl.1 hl.2, hrest]
      rfl

/-- Reading a text gives its samples back, in order. -/
theorem parseText_render {lines : List Line} (h : ∀ l ∈ lines, l.Valid) :
    parseText (render lines) = some (lines.filterMap Line.sample?) := by
  rw [parseText, splitOn_render h, if_pos (by simp), List.dropLast_concat, parseLines_text h]

end Exposition
