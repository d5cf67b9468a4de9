import Bweso.Sanity.Policy
import Bweso.Spec.Coverage

/-! The coverage checker against the provider: for which policy files is a key
the checker counts as covered also a key the provider allows? -/

namespace Bweso

theorem mem_rubySplitComma {line piece : Str} (h : piece ≠ []) :
    piece ∈ rubySplitComma line ↔ piece ∈ line.splitOn ',' := by
  have hsplit : (line.splitOn ',').rdropWhile List.isEmpty ++ (line.splitOn ',').rtakeWhile List.isEmpty =
      line.splitOn ',' := List.rdropWhile_append_rtakeWhile ..
  refine ⟨fun hm => ?_, fun hm => ?_⟩
  · rw [← hsplit]
    exact List.mem_append_left _ hm
  · rw [← hsplit] at hm
    rcases List.mem_append.mp hm with hm | hm
    · exact hm
    · exact absurd (List.isEmpty_iff.mp (List.mem_rtakeWhile_imp hm)) h

theorem mem_parsePolicyEntries {contents e : Str} :
    e ∈ parsePolicyEntries contents ↔ ∃ line ∈ Text.splitInclusive '\n' contents,
      ∃ piece ∈ line.splitOn ',', e = rubyStrip piece ∧ e ≠ [] ∧ e.head? ≠ some '#' := by
  have hhash : startsWith e "#".toList = true ↔ e.head? = some '#' := by
    rw [startsWith_iff]
    exact List.singleton_prefix_iff_head?_eq_some
  have hne : ∀ piece : Str, rubyStrip piece ≠ [] → piece ≠ [] := by
    rintro _ h rfl
    exact h (Text.trimBy_nil _)
  simp only [parsePolicyEntries, List.mem_filter, List.mem_map, List.mem_flatMap, rubyLines,
    Bool.not_eq_true', Bool.or_eq_false_iff, List.isEmpty_eq_false_iff]
  refine ⟨fun hiff => ?_, fun hiff => ?_⟩
  · obtain ⟨⟨piece, ⟨line, hl, hp⟩, rfl⟩, hnil, hc⟩ := hiff
    refine ⟨line, hl, piece, (mem_rubySplitComma (hne piece hnil)).mp hp, rfl, hnil, ?_⟩
    intro hh
    rw [hhash.mpr hh] at hc
    exact absurd hc (by decide)
  · obtain ⟨line, hl, piece, hp, rfl, hnil, hc⟩ := hiff
    refine ⟨⟨piece, ⟨line, hl, (mem_rubySplitComma (hne piece hnil)).mpr hp⟩, rfl⟩, hnil, ?_⟩
    simpa using mt hhash.mp hc

theorem listed_iff {contents e : Str} : Listed contents e ↔ e ∈ policyEntries contents := by
  rw [mem_policyEntries]
  refine ⟨fun h => ?_, fun h => ?_⟩
  · obtain ⟨he, line, hl, hc, hp⟩ := h
    exact ⟨line, hl, hc, he, hp⟩
  · obtain ⟨line, hl, hc, he, hp⟩ := h
    exact ⟨he, line, hl, hc, hp⟩

/-- Every entry the checker reads is misread or listed. -/
theorem misread_or_listed {contents e : Str} (h : e ∈ parsePolicyEntries contents) :
    Misread contents e ∨ Listed contents e := by
  obtain ⟨line, hl, piece, hp, he, hnil, hhash⟩ := mem_parsePolicyEntries.mp h
  by_cases hm : (trim line).head? = some '#' ∨ trim piece ≠ e
  · exact Or.inl ⟨line, hl, piece, hp, he, hnil, hhash, hm⟩
  · rw [not_or, not_not] at hm
    exact Or.inr ⟨hnil, line, hl, hm.1, piece, hp, hm.2⟩

theorem parsed_of_misread {contents e : Str} (h : Misread contents e) :
    e ∈ parsePolicyEntries contents := by
  obtain ⟨line, hl, piece, hp, he, hnil, hhash, -⟩ := h
  exact mem_parsePolicyEntries.mpr ⟨line, hl, piece, hp, he, hnil, hhash⟩

theorem covered_iff {kind : PolicyFileKind} {contents key : Str} :
    covered kind contents key = true ↔
      match kind with
      | .exact => key ∈ parsePolicyEntries contents
      | .prefixes => ∃ e ∈ parsePolicyEntries contents, e <+: key := by
  cases kind <;> simp [covered, List.any_eq_true, startsWith_iff]

/-- A provider with this file alone allows what the file lists, or extends. -/
theorem admitted_iff {kind : PolicyFileKind} {path contents key : Str}
    (hlen : (asBytes contents).length ≤ maxPolicyFileBytes) :
    admitted kind path contents key = true ↔
      match kind with
      | .exact => Listed contents key
      | .prefixes => ∃ e, Listed contents e ∧ e <+: key := by
  have hread : ∀ name, readPolicyFile name path (.contents (asBytes contents)) =
      .ok (policyEntries contents) := fun name => readPolicyFile_eq_ok.mpr ⟨contents, rfl, hlen, rfl⟩
  cases kind with
  | exact =>
    simp only [admitted, PolicyFileKind.sources, PolicySources.evaluate, extendFromFile, hread,
      Except.map, Except.ok_bind, PolicySources.build, listed_iff]
    by_cases hnil : policyEntries contents = []
    · simp [hnil, PolicySources.hasFile]
    · simp [hnil, allowList_allows]
  | prefixes =>
    simp only [admitted, PolicyFileKind.sources, PolicySources.evaluate, extendFromFile, hread,
      Except.map, Except.ok_bind, PolicySources.build, listed_iff]
    by_cases hnil : policyEntries contents = []
    · simp [hnil, PolicySources.hasFile]
    · simp [hnil, allowList_allows]

/-- The checker is sound for a policy file exactly when whatever it misreads
there the file lists as well. -/
theorem checker_sound_iff (kind : PolicyFileKind) (path contents : Str)
    (hlen : (asBytes contents).length ≤ maxPolicyFileBytes) :
    (∀ key, covered kind contents key = true → admitted kind path contents key = true) ↔
      MisreadsListed kind contents := by
  simp only [covered_iff, admitted_iff hlen, MisreadsListed]
  cases kind with
  | exact =>
    refine ⟨fun h e he => ?_, fun h key hk => ?_⟩
    · exact h e (parsed_of_misread he)
    · rcases misread_or_listed hk with hm | hl
      · exact h key hm
      · exact hl
  | prefixes =>
    constructor
    · intro h e he
      exact h e ⟨e, parsed_of_misread he, List.prefix_rfl⟩
    · rintro h key ⟨e, he, hpre⟩
      rcases misread_or_listed he with hm | hl
      · obtain ⟨e', hl, hpre'⟩ := h e hm
        exact ⟨e', hl, hpre'.trans hpre⟩
      · exact ⟨e, hl, hpre⟩

theorem checker_sound_iff_plain :
    (asBytes "id:a, id:b\n".toList).length ≤ maxPolicyFileBytes ∧
    ∀ key, covered .exact "id:a, id:b\n".toList key = true →
      admitted .exact "keys".toList "id:a, id:b\n".toList key = true := by
  refine ⟨by decide, (checker_sound_iff .exact "keys".toList _ (by decide)).mpr ?_⟩
  rintro e ⟨line, hl, piece, hp, rfl, -, -, hm⟩
  have hlines : Text.splitInclusive '\n' "id:a, id:b\n".toList = ["id:a, id:b\n".toList] := by decide
  have hpieces : ("id:a, id:b\n".toList).splitOn ',' = ["id:a".toList, " id:b\n".toList] := by decide
  rw [hlines, List.mem_singleton] at hl
  subst hl
  rw [hpieces] at hp
  fin_cases hp <;> exact absurd hm (by decide)

/-- A retired entry left in a comment counts as covered, and is denied. -/
theorem checker_covers_comment :
    (asBytes "id:a\n# old,id:b\n".toList).length ≤ maxPolicyFileBytes ∧
    covered .exact "id:a\n# old,id:b\n".toList "id:b".toList = true ∧
    (PolicyFileKind.exact.sources "keys".toList).evaluate
        (.contents (asBytes "id:a\n# old,id:b\n".toList))
        (.contents (asBytes "id:a\n# old,id:b\n".toList)) = .ok (.allowList ["id:a".toList] []) ∧
    admitted .exact "keys".toList "id:a\n# old,id:b\n".toList "id:b".toList = false := by
  decide

end Bweso
