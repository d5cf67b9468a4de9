import Bweso.Lib.Family
import Bweso.Spec.Render

/-! The rendered metrics can be read back: every appended metric is one line of
the exposition format, whatever its label values, and no two metrics share a
line. -/

namespace Bweso

open Exposition

/-! ### What is appended -/

theorem appendEscapedLabelValue_eq (output value : Str) :
    appendEscapedLabelValue output value = output ++ value.flatMap escape := by
  induction value generalizing output with
  | nil => simp [appendEscapedLabelValue]
  | cons c value ih =>
    have hstep : appendEscapedLabelValue output (c :: value) = appendEscapedLabelValue (output ++ escape c) value := by
      unfold appendEscapedLabelValue
      rw [List.foldl_cons]
      by_cases hback : c = '\\'
      · subst hback
        rfl
      · by_cases hquote : c = '"'
        · subst hquote
          rfl
        · by_cases hfeed : c = '\n'
          · subst hfeed
            rfl
          · simp [escape]
    rw [hstep, ih, List.append_assoc, List.flatMap_cons]

/-- Every label after the first brings its comma. -/
theorem appendLabels_succ (output : Str) (index : ℕ) (labels : List (Str × Str)) :
    appendLabels output (index + 1) labels = output ++ labels.flatMap fun l => ',' :: labelText l := by
  induction labels generalizing output index with
  | nil => simp [appendLabels]
  | cons l labels ih =>
    rw [appendLabels, if_pos (Nat.succ_pos index), ih, appendEscapedLabelValue_eq]
    simp [labelText]

theorem intercalate_cons_eq (text : Str) (texts : List Str) :
    [','].intercalate (text :: texts) = text ++ texts.flatMap (',' :: ·) := by
  induction texts generalizing text with
  | nil => simp
  | cons text' texts ih =>
    rw [List.intercalate_cons_cons, ih, List.flatMap_cons, List.append_assoc]
    rfl

theorem appendLabels_zero (output : Str) (labels : List (Str × Str)) :
    appendLabels output 0 labels = output ++ [','].intercalate (labels.map labelText) := by
  cases labels with
  | nil => simp [appendLabels]
  | cons l labels =>
    rw [appendLabels, if_neg (lt_irrefl 0), appendLabels_succ, appendEscapedLabelValue_eq, List.map_cons,
      intercalate_cons_eq, List.flatMap_map]
    simp [labelText]

theorem appendLabeledMetric_eq (output : Str) (m : Sample) :
    appendLabeledMetric output m.name m.labels m.value = output ++ m.line ++ ['\n'] := by
  rw [appendLabeledMetric, appendLabels_zero]
  simp [Sample.line]

/-- Appending samples one after another. -/
theorem foldl_appendLabeledMetric (output : Str) (samples : List Sample) :
    samples.foldl (fun output m => appendLabeledMetric output m.name m.labels m.value) output =
      output ++ render (samples.map .sample) := by
  induction samples generalizing output with
  | nil => simp [render]
  | cons m samples ih =>
    rw [List.foldl_cons, ih, appendLabeledMetric_eq]
    simp [render, Line.text]

/-- A metric appended to the registry's text is one line that reads back as that
metric; so no two metrics share a line, and a sequence of metrics reads back as
that sequence. -/
theorem metric_lines_unforgeable :
    (∀ (output : Str) (m : Sample), m.Valid →
      ∃ line, appendLabeledMetric output m.name m.labels m.value = output ++ line ++ ['\n'] ∧ '\n' ∉ line ∧
        parseLine line = some m) ∧
    (∀ (output : Str) (m m' : Sample), m.Valid → m'.Valid →
      appendLabeledMetric output m.name m.labels m.value = appendLabeledMetric output m'.name m'.labels m'.value →
      m = m') ∧
    ∀ samples : List Sample, (∀ m ∈ samples, m.Valid) →
      parseText (samples.foldl (fun output m => appendLabeledMetric output m.name m.labels m.value) []) =
        some samples := by
  refine ⟨fun output m hm => ?_, fun output m m' hm hm' heq => ?_, fun samples hsamples => ?_⟩
  · exact ⟨m.line, appendLabeledMetric_eq output m, lineFeed_not_mem_line hm, parseLine_line hm⟩
  · rw [appendLabeledMetric_eq, appendLabeledMetric_eq, List.append_cancel_right_eq,
      List.append_cancel_left_eq] at heq
    have hread := parseLine_line hm
    rw [heq, parseLine_line hm'] at hread
    exact (Option.some.inj hread).symm
  · have hvalid : ∀ l ∈ samples.map Line.sample, l.Valid := by
      intro l hl
      obtain ⟨m, hm, rfl⟩ := List.mem_map.mp hl
      exact hsamples m hm
    rw [foldl_appendLabeledMetric, List.nil_append, parseText_render hvalid, List.filterMap_map]
    exact congrArg some List.filterMap_some

/-- A method that tries to end its line and start another. -/
def forgedSample : Sample where
  name := "bweso_http_requests_total".toList
  labels := [("method".toList, "GET\"\x7d 1\nbweso_up 0\\".toList), ("route".toList, "/livez".toList)]
  value := "1".toList

theorem metric_lines_unforgeable_forged :
    parseText (appendLabeledMetric [] forgedSample.name forgedSample.labels forgedSample.value) =
      some [forgedSample] := by
  have hname : IsIdent forgedSample.name := by decide
  have hlabels : ∀ l ∈ forgedSample.labels, IsIdent l.1 := by decide
  have hvalue : isNumber forgedSample.value = true := by decide
  refine metric_lines_unforgeable.2.2 [forgedSample] fun m hm => ?_
  rw [List.mem_singleton.mp hm]
  exact ⟨hname, hlabels, hvalue⟩

/-! ### A histogram -/

def histogramSamples (name : Str) (labels : List (Str × Str)) (histogram : HistogramValues) : List Sample :=
  (histogramBuckets.zip histogram.buckets).map (fun (le, count) =>
    ⟨name ++ "_bucket".toList, labels ++ [("le".toList, le)], decimal count⟩) ++
  [⟨name ++ "_bucket".toList, labels ++ [("le".toList, "+Inf".toList)], decimal histogram.count⟩,
    ⟨name ++ "_sum".toList, labels, histogram.sumSeconds⟩,
    ⟨name ++ "_count".toList, labels, decimal histogram.count⟩]

theorem appendHistogram_eq (output name : Str) (labels : List (Str × Str)) (histogram : HistogramValues) :
    appendHistogram output name labels histogram =
      output ++ render ((histogramSamples name labels histogram).map .sample) := by
  rw [histogramSamples, ← foldl_appendLabeledMetric, List.foldl_append, List.foldl_map]
  rfl

theorem labels_ne_nil_of_mem_histogramSamples {name : Str} {labels : List (Str × Str)} (h : labels ≠ [])
    {histogram : HistogramValues} {m : Sample} (hm : m ∈ histogramSamples name labels histogram) : m.labels ≠ [] := by
  rcases List.mem_append.mp hm with hm | hm
  · obtain ⟨bucket, -, rfl⟩ := List.mem_map.mp hm
    exact List.append_ne_nil_of_left_ne_nil h _
  · simp only [List.mem_cons, List.not_mem_nil, or_false] at hm
    rcases hm with rfl | rfl | rfl
    · exact List.append_ne_nil_of_left_ne_nil h _
    · exact h
    · exact h

theorem name_mem_of_mem_histogramSamples {name : Str} {labels : List (Str × Str)} {histogram : HistogramValues}
    {m : Sample} (hm : m ∈ histogramSamples name labels histogram) : m.name ∈ sampleNames name .histogram := by
  rcases List.mem_append.mp hm with hm | hm
  · obtain ⟨bucket, -, rfl⟩ := List.mem_map.mp hm
    exact List.mem_cons_self
  · simp only [List.mem_cons, List.not_mem_nil, or_false] at hm
    rcases hm with rfl | rfl | rfl <;> simp [sampleNames]

/-- The labels of a histogram's own series, whatever bucket a sample is of. -/
theorem filter_labels_of_mem_histogramSamples {name : Str} {labels : List (Str × Str)}
    (h : ∀ l ∈ labels, l.1 ≠ "le".toList) {histogram : HistogramValues} {m : Sample}
    (hm : m ∈ histogramSamples name labels histogram) : m.labels.filter (fun l => l.1 ≠ "le".toList) = labels := by
  have hlabels : labels.filter (fun l => l.1 ≠ "le".toList) = labels := by
    apply List.filter_eq_self.mpr
    exact fun l hl => decide_eq_true (h l hl)
  have hextra : ∀ le : Str, (labels ++ [("le".toList, le)]).filter (fun l => l.1 ≠ "le".toList) = labels := by
    intro le
    rw [List.filter_append, hlabels]
    simp
  rcases List.mem_append.mp hm with hm | hm
  · obtain ⟨bucket, -, rfl⟩ := List.mem_map.mp hm
    exact hextra bucket.1
  · simp only [List.mem_cons, List.not_mem_nil, or_false] at hm
    rcases hm with rfl | rfl | rfl
    · exact hextra _
    · exact hlabels
    · exact hlabels

/-- The series of a histogram: its buckets by their bounds, the sum and the count. -/
theorem series_histogramSamples (name : Str) (labels : List (Str × Str)) (histogram : HistogramValues) :
    (histogramSamples name labels histogram).map Sample.series =
      ((histogramBuckets.zip histogram.buckets).map Prod.fst ++ ["+Inf".toList]).map
        (fun le => (name ++ "_bucket".toList, labels ++ [("le".toList, le)])) ++
      [(name ++ "_sum".toList, labels), (name ++ "_count".toList, labels)] := by
  simp [histogramSamples, Sample.series, Function.comp_def]

theorem map_fst_zip_sublist {α β : Type} (l : List α) (l' : List β) : ((l.zip l').map Prod.fst).Sublist l := by
  induction l generalizing l' with
  | nil => simp
  | cons x l ih =>
    cases l' with
    | nil => simp
    | cons y l' => exact (ih l').cons_cons x

theorem series_histogramSamples_nodup (name : Str) (labels : List (Str × Str)) (histogram : HistogramValues) :
    ((histogramSamples name labels histogram).map Sample.series).Nodup := by
  have hbounds : (histogramBuckets ++ ["+Inf".toList]).Nodup := by decide
  have hsum : "_bucket".toList ≠ "_sum".toList := by decide
  have hcount : "_bucket".toList ≠ "_count".toList := by decide
  have hsub : ((histogramBuckets.zip histogram.buckets).map Prod.fst ++ ["+Inf".toList]).Sublist
      (histogramBuckets ++ ["+Inf".toList]) := by
    apply List.Sublist.append (map_fst_zip_sublist histogramBuckets histogram.buckets)
    exact List.Sublist.refl _
  have hinj : Function.Injective fun le : Str => (name ++ "_bucket".toList, labels ++ [("le".toList, le)]) := by
    intro le le' heq
    simpa using heq
  rw [series_histogramSamples, List.nodup_append]
  refine ⟨(hsub.nodup hbounds).map hinj, ?_, ?_⟩
  · simp
  · intro s hs s' hs' heq
    obtain ⟨le, -, rfl⟩ := List.mem_map.mp hs
    simp only [List.mem_cons, List.not_mem_nil, or_false] at hs'
    rcases hs' with rfl | rfl
    · exact hsum (List.append_cancel_left (congrArg Prod.fst heq))
    · exact hcount (List.append_cancel_left (congrArg Prod.fst heq))

theorem isNumber_decimal (n : ℕ) : isNumber (decimal n) = true := by
  apply isNumber_of_digits
  · exact Nat.toDigits_ne_nil
  · exact fun c hc => Nat.isDigit_of_mem_toDigits (by norm_num) (by norm_num) hc

theorem histogramSamples_valid {name : Str} {labels : List (Str × Str)} {histogram : HistogramValues}
    (hname : IsIdent name) (hlabels : ∀ l ∈ labels, IsIdent l.1) (hsum : isNumber histogram.sumSeconds = true) :
    ∀ m ∈ histogramSamples name labels histogram, m.Valid := by
  have hbucket : IsIdent (name ++ "_bucket".toList) := hname.append (by decide)
  have hextra : ∀ le : Str, ∀ l ∈ labels ++ [("le".toList, le)], IsIdent l.1 := by
    intro le l hl
    rcases List.mem_append.mp hl with hl | hl
    · exact hlabels l hl
    · rw [List.mem_singleton.mp hl]
      exact (by decide : IsIdent "le".toList)
  intro m hm
  rcases List.mem_append.mp hm with hm | hm
  · obtain ⟨bucket, -, rfl⟩ := List.mem_map.mp hm
    exact ⟨hbucket, hextra _, isNumber_decimal _⟩
  · simp only [List.mem_cons, List.not_mem_nil, or_false] at hm
    rcases hm with rfl | rfl | rfl
    · exact ⟨hbucket, hextra _, isNumber_decimal _⟩
    · exact ⟨hname.append (by decide), hlabels, hsum⟩
    · exact ⟨hname.append (by decide), hlabels, isNumber_decimal _⟩

end Bweso
