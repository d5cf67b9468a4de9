import Bweso.Lib.Exposition

/-! Metric families of the exposition format: a name with its help and its kind,
written before the samples that belong to it, and no sample told twice. -/

namespace Exposition

inductive Kind
  | counter
  | gauge
  | histogram
  deriving DecidableEq

def Kind.text : Kind → List Char
  | .counter => "counter".toList
  | .gauge => "gauge".toList
  | .histogram => "histogram".toList

structure Family where
  name : List Char
  help : List Char
  kind : Kind
  samples : List Sample

/-- The name and the labels of a sample, which make its series. -/
def Sample.series (m : Sample) : List Char × List (List Char × List Char) := (m.name, m.labels)

/-- A sample as a line; without labels it has no braces. -/
def Sample.toLine (m : Sample) : Line := if m.labels = [] then .bare m.name m.value else .sample m

/-- The names samples of a kind go by. -/
def sampleNames (name : List Char) : Kind → List (List Char)
  | .histogram => [name ++ "_bucket".toList, name ++ "_sum".toList, name ++ "_count".toList]
  | _ => [name]

namespace Family

/-- What a family says before its samples. -/
def header (f : Family) : List Char × List Char × Kind := (f.name, f.help, f.kind)

def helpLine (f : Family) : Line := .comment (" HELP ".toList ++ f.name ++ ' ' :: f.help)

def typeLine (f : Family) : Line := .comment (" TYPE ".toList ++ f.name ++ ' ' :: f.kind.text)

def lines (f : Family) : List Line := f.helpLine :: f.typeLine :: f.samples.map Sample.toLine

structure WellFormed (f : Family) : Prop where
  name : IsIdent f.name
  help : '\n' ∉ f.help
  valid : ∀ m ∈ f.samples, m.Valid
  belongs : ∀ m ∈ f.samples, m.name ∈ sampleNames f.name f.kind
  distinct : (f.samples.map Sample.series).Nodup

end Family

/-- The text of some families, one after another. -/
def renderFamilies (families : List Family) : List Char := render (families.flatMap Family.lines)

theorem renderFamilies_append (fs gs : List Family) :
    renderFamilies (fs ++ gs) = renderFamilies fs ++ renderFamilies gs := by
  rw [renderFamilies, List.flatMap_append, render_append]
  rfl

theorem toLine_valid {m : Sample} (h : m.Valid) : m.toLine.Valid := by
  unfold Sample.toLine
  split_ifs
  · exact ⟨h.name, h.value⟩
  · exact h

theorem sample?_toLine (m : Sample) : m.toLine.sample? = some m := by
  unfold Sample.toLine
  split_ifs with h
  · obtain ⟨name, labels, value⟩ := m
    obtain rfl : labels = [] := h
    rfl
  · rfl

theorem Family.lines_valid {f : Family} (h : f.WellFormed) : ∀ l ∈ f.lines, l.Valid := by
  have hname := h.name.lineFeed_not_mem
  intro l hl
  simp only [Family.lines, List.mem_cons] at hl
  rcases hl with rfl | rfl | hl
  · intro hm
    rcases List.mem_append.mp hm with hm | hm
    · rcases List.mem_append.mp hm with hm | hm
      · exact absurd hm (by decide)
      · exact hname hm
    · rcases List.mem_cons.mp hm with hm | hm
      · exact absurd hm (by decide)
      · exact h.help hm
  · intro hm
    rcases List.mem_append.mp hm with hm | hm
    · rcases List.mem_append.mp hm with hm | hm
      · exact absurd hm (by decide)
      · exact hname hm
    · have hkind : ∀ kind : Kind, '\n' ∉ ' ' :: kind.text := by
        intro kind
        cases kind <;> decide
      exact hkind f.kind hm
  · obtain ⟨m, hm, rfl⟩ := List.mem_map.mp hl
    exact toLine_valid (h.valid m hm)

theorem Family.samples_lines (f : Family) : f.lines.filterMap Line.sample? = f.samples := by
  have hsamples : (f.samples.map Sample.toLine).filterMap Line.sample? = f.samples := by
    rw [List.filterMap_map]
    exact (List.filterMap_congr fun m _ => sample?_toLine m).trans List.filterMap_some
  rw [Family.lines, List.filterMap_cons_none rfl, List.filterMap_cons_none rfl, hsamples]

/-- Reading the text of some families gives their samples. -/
theorem parseText_renderFamilies {families : List Family} (h : ∀ f ∈ families, f.WellFormed) :
    parseText (renderFamilies families) = some (families.flatMap Family.samples) := by
  have hvalid : ∀ l ∈ families.flatMap Family.lines, l.Valid := by
    intro l hl
    obtain ⟨f, hf, hl⟩ := List.mem_flatMap.mp hl
    exact f.lines_valid (h f hf) l hl
  rw [renderFamilies, parseText_render hvalid, List.filterMap_flatMap]
  simp only [Family.samples_lines]

/-- Of families whose names stand apart some may be left out. -/
theorem sampleNames_sublist {fs gs : List Family} (h : (fs.map Family.header).Sublist (gs.map Family.header)) :
    (fs.flatMap fun f => sampleNames f.name f.kind).Sublist (gs.flatMap fun f => sampleNames f.name f.kind) := by
  have hnames := h.flatMap fun header => sampleNames header.1 header.2.2
  rw [List.flatMap_map, List.flatMap_map] at hnames
  exact hnames

/-- No series is told twice, if the families share no name. -/
theorem series_nodup {families : List Family} (h : ∀ f ∈ families, f.WellFormed)
    (hnames : (families.flatMap fun f => sampleNames f.name f.kind).Nodup) :
    ((families.flatMap Family.samples).map Sample.series).Nodup := by
  induction families with
  | nil => exact List.nodup_nil
  | cons f families ih =>
    rw [List.flatMap_cons, List.nodup_append] at hnames
    obtain ⟨-, hrest, hapart⟩ := hnames
    rw [List.flatMap_cons, List.map_append, List.nodup_append]
    refine ⟨(h f List.mem_cons_self).distinct, ih (fun g hg => h g (List.mem_cons_of_mem f hg)) hrest, ?_⟩
    intro s hs s' hs' heq
    obtain ⟨m, hm, rfl⟩ := List.mem_map.mp hs
    obtain ⟨m', hm', rfl⟩ := List.mem_map.mp hs'
    obtain ⟨g, hg, hm'⟩ := List.mem_flatMap.mp hm'
    have hname := (h f List.mem_cons_self).belongs m hm
    have hname' := (h g (List.mem_cons_of_mem f hg)).belongs m' hm'
    exact hapart _ hname _ (List.mem_flatMap.mpr ⟨g, hg, hname'⟩) (congrArg Prod.fst heq)

end Exposition
