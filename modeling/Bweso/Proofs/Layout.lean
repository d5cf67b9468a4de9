import Bweso.Sanity.Policy

/-! The layouts a policy file may give an entry list, and that reading the file
undoes every one of them. -/

namespace Bweso

/-- What an entry must be for a file to carry it. -/
structure PolicyEntry (e : Str) : Prop where
  ne_nil : e ≠ []
  trimmed : trim e = e
  no_comma : ',' ∉ e
  no_lineFeed : '\n' ∉ e

/-- White space within a line. -/
structure Spaces (s : Str) : Prop where
  spaces : ∀ c ∈ s, isWhitespace c = true
  no_lineFeed : '\n' ∉ s

/-- What stands between two commas: at most one entry, with space around it. -/
structure Piece where
  left : Str
  entry : Option Str
  right : Str

def Piece.text (p : Piece) : Str := p.left ++ p.entry.getD [] ++ p.right

inductive PolicyLine
  | comment (indent text : Str)
  | blank (spaces : Str)
  | run (pieces : List Piece)

namespace PolicyLine

def text : PolicyLine → Str
  | .comment indent text => indent ++ '#' :: text
  | .blank spaces => spaces
  | .run pieces => [','].intercalate (pieces.map Piece.text)

def entries : PolicyLine → List Str
  | .run pieces => pieces.filterMap Piece.entry
  | _ => []

/-- A run may not look like a comment: its first entry does not start with `#`. -/
def WellFormed : PolicyLine → Prop
  | .comment indent text => Spaces indent ∧ '\n' ∉ text
  | .blank spaces => Spaces spaces
  | .run pieces => (∀ p ∈ pieces, Spaces p.left ∧ Spaces p.right ∧ ∀ e, p.entry = some e → PolicyEntry e) ∧
      ∀ e, (pieces.filterMap Piece.entry).head? = some e → e.head? ≠ some '#'

end PolicyLine

inductive LineEnding
  | lf
  | crlf

def LineEnding.text : LineEnding → Str
  | .lf => ['\n']
  | .crlf => ['\r', '\n']

/-- Lines with their endings, and a last line that may have none. -/
structure PolicyLayout where
  lines : List (PolicyLine × LineEnding)
  last : Option PolicyLine

namespace PolicyLayout

def text (layout : PolicyLayout) : Str :=
  (layout.lines.flatMap fun l => l.1.text ++ l.2.text) ++ layout.last.elim [] PolicyLine.text

/-- The layout is one of the given entries, in order. -/
structure Renders (layout : PolicyLayout) (entries : List Str) : Prop where
  lines : ∀ l ∈ layout.lines, l.1.WellFormed
  last : ∀ l, layout.last = some l → l.WellFormed
  entries : (layout.lines.flatMap fun l => l.1.entries) ++ layout.last.elim [] PolicyLine.entries = entries

end PolicyLayout

/-! ### One line -/

theorem Spaces.trim_append {s : Str} (h : Spaces s) (t : Str) : trim (s ++ t) = trim t :=
  Text.trimBy_append_left h.spaces t

theorem trim_append_space {s : Str} (h : ∀ c ∈ s, isWhitespace c = true) (t : Str) : trim (t ++ s) = trim t :=
  Text.trimBy_append_right h t

theorem PolicyEntry.head {e : Str} (h : PolicyEntry e) : ∃ c t, e = c :: t ∧ isWhitespace c = false := by
  cases e with
  | nil => exact absurd rfl h.ne_nil
  | cons c t =>
    refine ⟨c, t, rfl, ?_⟩
    by_contra hc
    have hdrop : trim (c :: t) = trim t := Text.trimBy_append_left (a := [c]) (by simpa using hc) t
    -- a text that starts with white space is longer than its trimmed form
    have hlen := congrArg List.length (h.trimmed.symm.trans hdrop)
    obtain ⟨a, b, ht, -, -⟩ := Text.trimBy_decomp isWhitespace t
    have hle := congrArg List.length ht
    simp only [List.length_append, List.length_cons, trim] at hlen hle
    omega

namespace Piece

variable {p : Piece} (hl : Spaces p.left) (hr : Spaces p.right) (he : ∀ e, p.entry = some e → PolicyEntry e)
include hl hr he

theorem trim_text : trim p.text = p.entry.getD [] := by
  rw [text, List.append_assoc, hl.trim_append, trim_append_space hr.spaces]
  cases h : p.entry with
  | none => exact trim_nil
  | some e => exact (he e h).trimmed

theorem no_comma : ',' ∉ p.text := by
  have hspace : ∀ {s : Str}, Spaces s → ',' ∉ s := by
    intro s hs hm
    exact absurd (hs.spaces ',' hm) (by decide)
  intro hm
  simp only [text, List.mem_append] at hm
  rcases hm with (hm | hm) | hm
  · exact hspace hl hm
  · cases h : p.entry with
    | none => simp [h] at hm
    | some e =>
      rw [h] at hm
      exact (he e h).no_comma hm
  · exact hspace hr hm

theorem no_lineFeed : '\n' ∉ p.text := by
  intro hm
  simp only [text, List.mem_append] at hm
  rcases hm with (hm | hm) | hm
  · exact hl.no_lineFeed hm
  · cases h : p.entry with
    | none => simp [h] at hm
    | some e =>
      rw [h] at hm
      exact (he e h).no_lineFeed hm
  · exact hr.no_lineFeed hm

end Piece

/-- The pieces of a run, trimmed and without the empty ones, are its entries. -/
theorem filter_trim_pieces {pieces : List Piece}
    (h : ∀ p ∈ pieces, Spaces p.left ∧ Spaces p.right ∧ ∀ e, p.entry = some e → PolicyEntry e) :
    ((pieces.map Piece.text).map trim).filter (fun entry => !entry.isEmpty) = pieces.filterMap Piece.entry := by
  induction pieces with
  | nil => rfl
  | cons p pieces ih =>
    obtain ⟨hl, hr, he⟩ := h p List.mem_cons_self
    have hrest := ih fun q hq => h q (List.mem_cons_of_mem p hq)
    rw [List.map_cons, List.map_cons, Piece.trim_text hl hr he]
    cases hp : p.entry with
    | none =>
      rw [List.filterMap_cons_none hp, List.filter_cons_of_neg (by simp), hrest]
    | some e =>
      have hne := (he e hp).ne_nil
      rw [List.filterMap_cons_some hp, List.filter_cons_of_pos (by simpa using hne), hrest]
      rfl

/-- A run never reads as a comment. -/
theorem head?_trim_run {pieces : List Piece} (h : (PolicyLine.run pieces).WellFormed) :
    (trim (PolicyLine.run pieces).text).head? ≠ some '#' := by
  obtain ⟨hall, hhash⟩ := h
  cases pieces with
  | nil => exact (by decide : (trim []).head? ≠ some '#')
  | cons p pieces =>
    obtain ⟨hl, hr, he⟩ := hall p List.mem_cons_self
    have htext : ∃ rest, (PolicyLine.run (p :: pieces)).text = p.text ++ rest ∧
        (rest = [] ∨ ∃ rest', rest = ',' :: rest') := by
      cases pieces with
      | nil => exact ⟨[], by simp [PolicyLine.text, List.intercalate], Or.inl rfl⟩
      | cons q pieces =>
        exact ⟨',' :: [','].intercalate ((q :: pieces).map Piece.text),
          by simp [PolicyLine.text, List.intercalate], Or.inr ⟨_, rfl⟩⟩
    obtain ⟨rest, htext, hrest⟩ := htext
    rw [htext, Piece.text]
    cases hp : p.entry with
    | some e =>
      -- the line starts with its first entry
      obtain ⟨c, t, rfl, hc⟩ := (he e hp).head
      have hfirst := hhash (c :: t) (by rw [List.filterMap_cons_some hp]; rfl)
      have hhead := Text.head?_trimBy hl.spaces hc (t ++ p.right ++ rest)
      rw [trim, show p.left ++ (some (c :: t)).getD [] ++ p.right ++ rest =
        p.left ++ c :: (t ++ p.right ++ rest) by simp, hhead]
      exact hfirst
    | none =>
      have hspace : ∀ c ∈ p.left ++ p.right, isWhitespace c = true := by
        intro c hc
        rcases List.mem_append.mp hc with hc | hc
        · exact hl.spaces c hc
        · exact hr.spaces c hc
      rw [Option.getD_none, List.append_nil]
      rcases hrest with rfl | ⟨rest', rfl⟩
      · rw [trim_append_space (by simp), show p.left ++ p.right = p.left ++ p.right ++ [] by simp, trim,
          Text.trimBy_append_left hspace]
        decide
      · rw [trim, Text.head?_trimBy hspace (by decide)]
        decide

theorem policyLineEntries_text {line : PolicyLine} (h : line.WellFormed) :
    policyLineEntries line.text = line.entries := by
  rw [policyLineEntries_eq]
  cases line with
  | comment indent text =>
    have hhead : (trim (PolicyLine.comment indent text).text).head? = some '#' :=
      Text.head?_trimBy h.1.spaces (by decide) text
    rw [if_pos hhead]
    rfl
  | blank spaces =>
    have hcomma : ',' ∉ spaces := fun hm => absurd (h.spaces ',' hm) (by decide)
    have hblank : trim spaces = [] := by
      rw [← List.append_nil spaces, h.trim_append, trim_nil]
    simp [PolicyLine.text, PolicyLine.entries, List.splitOn_eq_singleton hcomma, hblank]
  | run pieces =>
    rw [if_neg (head?_trim_run h)]
    cases pieces with
    | nil => decide
    | cons p pieces =>
      have hsplit : ([','].intercalate ((p :: pieces).map Piece.text)).splitOn ',' = (p :: pieces).map Piece.text := by
        refine List.splitOn_intercalate ',' (fun l hl => ?_) (by simp)
        obtain ⟨q, hq, rfl⟩ := List.mem_map.mp hl
        obtain ⟨hleft, hright, he⟩ := h.1 q hq
        exact Piece.no_comma hleft hright he
      rw [PolicyLine.text, hsplit]
      exact filter_trim_pieces h.1

theorem PolicyLine.no_lineFeed {line : PolicyLine} (h : line.WellFormed) : '\n' ∉ line.text := by
  cases line with
  | comment indent text =>
    intro hm
    simp only [PolicyLine.text, List.mem_append, List.mem_cons] at hm
    rcases hm with hm | hm | hm
    · exact h.1.no_lineFeed hm
    · exact absurd hm (by decide)
    · exact h.2 hm
  | blank spaces => exact h.no_lineFeed
  | run pieces =>
    intro hm
    rcases Text.mem_of_mem_intercalate hm with hm | ⟨l, hl, hm⟩
    · exact absurd hm (by decide)
    · obtain ⟨q, hq, rfl⟩ := List.mem_map.mp hl
      obtain ⟨hleft, hright, he⟩ := h.1 q hq
      exact Piece.no_lineFeed hleft hright he hm

/-! ### The whole file -/

theorem policyLineEntries_ending (ending : LineEnding) (line : Str) :
    policyLineEntries (line ++ ending.text) = policyLineEntries line := by
  have hspace : ∀ c ∈ ending.text, isWhitespace c = true := by
    cases ending <;> exact List.all_eq_true.mp (by decide)
  rw [← policyLineEntries_trim, trim_append_space hspace, policyLineEntries_trim]

/-- A line with its ending is one piece of the file. -/
theorem splitInclusive_line {line : PolicyLine} (h : line.WellFormed) (ending : LineEnding) (rest : Str) :
    Text.splitInclusive '\n' (line.text ++ ending.text ++ rest) =
      (line.text ++ ending.text) :: Text.splitInclusive '\n' rest := by
  have hline := PolicyLine.no_lineFeed h
  cases ending with
  | lf =>
    rw [LineEnding.text, List.append_assoc, List.singleton_append]
    exact Text.splitInclusive_append hline rest
  | crlf =>
    have hcr : '\n' ∉ line.text ++ ['\r'] := by
      intro hm
      rcases List.mem_append.mp hm with hm | hm
      · exact hline hm
      · exact absurd hm (by decide)
    have hcut := Text.splitInclusive_append hcr rest
    simpa [LineEnding.text] using hcut

theorem splitInclusive_last {line : PolicyLine} (h : line.WellFormed) :
    (Text.splitInclusive '\n' line.text).flatMap policyLineEntries = line.entries := by
  by_cases hnil : line.text = []
  · rw [← policyLineEntries_text h, hnil]
    decide
  · rw [Text.splitInclusive_of_not_mem (PolicyLine.no_lineFeed h) hnil, List.flatMap_singleton,
      policyLineEntries_text h]

theorem policyEntries_layout {layout : PolicyLayout} {entries : List Str} (h : layout.Renders entries) :
    policyEntries layout.text = entries := by
  obtain ⟨lines, last⟩ := layout
  obtain ⟨hlines, hlast, rfl⟩ := h
  rw [policyEntries_eq, PolicyLayout.text]
  induction lines with
  | nil =>
    cases last with
    | none => rfl
    | some line => exact splitInclusive_last (hlast line rfl)
  | cons l lines ih =>
    have hl := hlines l List.mem_cons_self
    have hrest := ih (fun l' hl' => hlines l' (List.mem_cons_of_mem l hl')) hlast
    rw [List.flatMap_cons, List.flatMap_cons, List.append_assoc (l.1.text ++ l.2.text), splitInclusive_line hl,
      List.append_assoc, List.flatMap_cons, policyLineEntries_ending, policyLineEntries_text hl, hrest]

/-- A line of a file has no line feed. -/
theorem lineFeed_not_mem_lines {contents line : Str} (h : line ∈ lines contents) : '\n' ∉ line := by
  obtain ⟨l, hl, rfl⟩ := List.mem_map.mp h
  have hinit := Text.not_mem_dropLast_splitInclusive hl
  intro hm
  dsimp only at hm
  split_ifs at hm with hlast hcr
  · exact hinit (List.dropLast_subset _ hm)
  · exact hinit hm
  · cases hget : l.getLast? with
    | none =>
      rw [List.getLast?_eq_none_iff.mp hget] at hm
      simp at hm
    | some x =>
      obtain ⟨t, rfl⟩ := List.getLast?_eq_some_iff.mp hget
      rw [List.dropLast_concat] at hinit
      rcases List.mem_append.mp hm with hm | hm
      · exact hinit hm
      · rw [hget, List.mem_singleton.mp hm] at hlast
        exact hlast rfl

theorem policyEntries_entry {contents e : Str} (h : e ∈ policyEntries contents) : PolicyEntry e := by
  obtain ⟨hne, htrim⟩ := policyEntries_trimmed h
  obtain ⟨line, hline, he⟩ := List.mem_flatMap.mp h
  obtain ⟨-, -, p, hp, rfl⟩ := mem_policyLineEntries.mp he
  refine ⟨hne, htrim, fun hm => ?_, fun hm => ?_⟩
  · exact (Text.mem_of_mem_splitOn hp (Text.mem_of_mem_trimBy hm)).2 rfl
  · exact lineFeed_not_mem_lines hline (Text.mem_of_mem_splitOn hp (Text.mem_of_mem_trimBy hm)).1

/-- Reading a policy file undoes every layout of an entry list within the size
limit, and whatever the file, what is read from it are entries. -/
theorem policy_layout_undone (name path : Str) :
    (∀ (entries : List Str) (layout : PolicyLayout), (∀ e ∈ entries, PolicyEntry e) → layout.Renders entries →
      (asBytes layout.text).length ≤ maxPolicyFileBytes →
      readPolicyFile name path (.contents (asBytes layout.text)) = .ok entries) ∧
    ∀ (read : FileRead) (entries : List Str), readPolicyFile name path read = .ok entries →
      ∀ e ∈ entries, e ≠ [] ∧ trim e = e ∧ ',' ∉ e ∧ '\n' ∉ e := by
  refine ⟨fun entries layout _ hlayout hsize => ?_, fun read entries hread e he => ?_⟩
  · exact readPolicyFile_eq_ok.mpr ⟨layout.text, rfl, hsize, (policyEntries_layout hlayout).symm⟩
  · obtain ⟨contents, -, -, rfl⟩ := readPolicyFile_eq_ok.mp hread
    have hentry := policyEntries_entry he
    exact ⟨hentry.ne_nil, hentry.trimmed, hentry.no_comma, hentry.no_lineFeed⟩

/-- A comment, a run with empty pieces, a blank line, and a last line without an
ending. -/
def sampleLayout : PolicyLayout where
  lines := [(.comment " ".toList " keys".toList, .crlf),
    (.run [⟨[], none, "\t".toList⟩, ⟨" ".toList, some "id:a".toList, []⟩, ⟨[], some "#b".toList, "\r".toList⟩], .lf),
    (.blank " ".toList, .lf)]
  last := some (.run [⟨[], some "id:c d".toList, " ".toList⟩])

theorem policy_layout_undone_sample :
    readPolicyFile "allowed_key".toList "keys".toList (.contents (asBytes sampleLayout.text)) =
      .ok ["id:a".toList, "#b".toList, "id:c d".toList] := by
  have entry : ∀ e ∈ ["id:a".toList, "#b".toList, "id:c d".toList], PolicyEntry e := by
    intro e he
    simp only [List.mem_cons, List.not_mem_nil, or_false] at he
    rcases he with rfl | rfl | rfl
    · exact ⟨by decide, by decide, by decide, by decide⟩
    · exact ⟨by decide, by decide, by decide, by decide⟩
    · exact ⟨by decide, by decide, by decide, by decide⟩
  have spaces : ∀ s ∈ [[], " ".toList, "\t".toList, "\r".toList], Spaces s := by
    intro s hs
    simp only [List.mem_cons, List.not_mem_nil, or_false] at hs
    rcases hs with rfl | rfl | rfl | rfl
    · exact ⟨List.all_eq_true.mp (by decide), by decide⟩
    · exact ⟨List.all_eq_true.mp (by decide), by decide⟩
    · exact ⟨List.all_eq_true.mp (by decide), by decide⟩
    · exact ⟨List.all_eq_true.mp (by decide), by decide⟩
  have run : ∀ pieces : List Piece, (∀ p ∈ pieces, p.left ∈ [[], " ".toList, "\t".toList, "\r".toList] ∧
      p.right ∈ [[], " ".toList, "\t".toList, "\r".toList] ∧
      ∀ e, p.entry = some e → e ∈ ["id:a".toList, "#b".toList, "id:c d".toList]) →
      (∀ e, (pieces.filterMap Piece.entry).head? = some e → e.head? ≠ some '#') →
      (PolicyLine.run pieces).WellFormed := by
    refine fun pieces hpieces hhead => ⟨fun p hp => ?_, hhead⟩
    obtain ⟨hl, hr, he⟩ := hpieces p hp
    exact ⟨spaces _ hl, spaces _ hr, fun e h => entry e (he e h)⟩
  refine (policy_layout_undone "allowed_key".toList "keys".toList).1 _ sampleLayout entry ⟨?_, ?_, by decide⟩
    (by decide)
  · intro l hl
    simp only [sampleLayout, List.mem_cons, List.not_mem_nil, or_false] at hl
    rcases hl with rfl | rfl | rfl
    · exact ⟨spaces _ (by decide), by decide⟩
    · exact run _ (by decide) (by decide)
    · exact spaces _ (by decide)
  · intro l hl
    obtain rfl := Option.some.inj hl
    exact run _ (by decide) (by decide)

end Bweso
