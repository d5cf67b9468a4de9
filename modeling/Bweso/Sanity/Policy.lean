import Bweso.Sanity.Basic
import Bweso.Spec.Policy

/-! What policy rules allow, what a policy file lists, and what an evaluation
that succeeds has built. -/

namespace Bweso

theorem allowList_allows {allowedKeys allowedKeyPrefixes : List Str} {key : Str} :
    (PolicyRules.allowList allowedKeys allowedKeyPrefixes).allows key = true ↔
      key ∈ allowedKeys ∨ ∃ p ∈ allowedKeyPrefixes, p <+: key := by
  simp [PolicyRules.allows, List.any_eq_true, startsWith_iff]

/-! ### Lines and entries -/

/-- The line ending that `lines` drops is whitespace. -/
theorem trim_dropEnding (l : Str) :
    trim (if l.getLast? = some '\n' then
      (let l := l.dropLast; if l.getLast? = some '\r' then l.dropLast else l) else l) = trim l := by
  have drop : ∀ (s : Str) (c : Char), s.getLast? = some c → isWhitespace c = true →
      trim s.dropLast = trim s := by
    intro s c hs hc
    obtain ⟨t, rfl⟩ := List.getLast?_eq_some_iff.mp hs
    rw [List.dropLast_concat]
    exact (Text.trimBy_append_right (by simpa using hc) t).symm
  by_cases h : l.getLast? = some '\n'
  · simp only [h, if_true]
    by_cases h' : l.dropLast.getLast? = some '\r'
    · rw [if_pos h', drop _ _ h' (by decide), drop _ _ h (by decide)]
    · rw [if_neg h', drop _ _ h (by decide)]
  · rw [if_neg h]

theorem map_trim_lines (s : Str) : (lines s).map trim = (Text.splitInclusive '\n' s).map trim := by
  simp only [lines, List.map_map]
  exact List.map_congr_left fun l _ => trim_dropEnding l

theorem policyLineEntries_trim (line : Str) : policyLineEntries (trim line) = policyLineEntries line := by
  simp [policyLineEntries]

/-- The entries of a line are its non-blank pieces, trimmed. -/
theorem policyLineEntries_eq (line : Str) :
    policyLineEntries line = if (trim line).head? = some '#' then []
      else ((line.splitOn ',').map trim).filter fun entry => !entry.isEmpty := by
  have hsplit : ((trim line).splitOn ',').map trim = (line.splitOn ',').map trim :=
    Text.map_trimBy_splitOn_trimBy (by decide) line
  by_cases hc : (trim line).head? = some '#'
  · simp [policyLineEntries, hc]
  · rw [if_neg hc, ← hsplit]
    by_cases hline : trim line = []
    · simp [policyLineEntries, hline]
    · simp [policyLineEntries, hline, hc]

theorem mem_policyLineEntries {line e : Str} :
    e ∈ policyLineEntries line ↔
      (trim line).head? ≠ some '#' ∧ e ≠ [] ∧ ∃ p ∈ line.splitOn ',', trim p = e := by
  rw [policyLineEntries_eq]
  by_cases hc : (trim line).head? = some '#'
  · simp [hc]
  · simp [hc, and_comm]

/-- The ending of a line is white space, so it may stay on the line. -/
theorem policyEntries_eq (contents : Str) :
    policyEntries contents = (Text.splitInclusive '\n' contents).flatMap policyLineEntries := by
  have trimmed : ∀ ls : List Str, ls.flatMap policyLineEntries = (ls.map trim).flatMap policyLineEntries := by
    intro ls
    simp only [List.flatMap_map, policyLineEntries_trim]
  rw [policyEntries, trimmed, map_trim_lines, ← trimmed]

/-- A file lists the non-blank pieces of its lines that are not comments. -/
theorem mem_policyEntries {contents e : Str} :
    e ∈ policyEntries contents ↔ ∃ line ∈ Text.splitInclusive '\n' contents,
      (trim line).head? ≠ some '#' ∧ e ≠ [] ∧ ∃ p ∈ line.splitOn ',', trim p = e := by
  simp only [policyEntries_eq, List.mem_flatMap, mem_policyLineEntries]

theorem policyEntries_trimmed {contents e : Str} (h : e ∈ policyEntries contents) :
    e ≠ [] ∧ trim e = e := by
  obtain ⟨_, _, _, he, p, _, rfl⟩ := mem_policyEntries.mp h
  exact ⟨he, trim_trim p⟩

/-- Reading succeeds exactly on valid UTF-8 within the limit. -/
theorem readPolicyFile_eq_ok {name path : Str} {read : FileRead} {entries : List Str} :
    readPolicyFile name path read = .ok entries ↔ ∃ contents, read = .contents (asBytes contents) ∧
      (asBytes contents).length ≤ maxPolicyFileBytes ∧ entries = policyEntries contents := by
  cases read with
  | openFailed => simp [readPolicyFile]
  | readFailed => simp [readPolicyFile]
  | contents bytes =>
    simp only [readPolicyFile, FileRead.contents.injEq]
    refine ⟨fun h => ?_, ?_⟩
    · cases hd : fromUtf8 (bytes.take (maxPolicyFileBytes + 1)) with
      | none => simp [hd] at h
      | some contents =>
        simp only [hd, Except.guard_eq_ok, not_lt, Except.ok.injEq] at h
        exact ⟨contents, (fromUtf8_take h.1).mp hd, h.1, h.2.symm⟩
    · rintro ⟨contents, hb, hlen, rfl⟩
      rw [(fromUtf8_take hlen).mpr hb]
      simp [not_lt.mpr hlen]

/-! ### Evaluation -/

theorem extendFromFile_eq_ok {entries : List Str} {name : Str} {file : Option Str} {read : FileRead}
    {result : List Str} : extendFromFile entries name file read = .ok result ↔
      (file = none ∧ result = entries) ∨
        ∃ path listed, file = some path ∧ readPolicyFile name path read = .ok listed ∧
          result = entries ++ listed := by
  cases file with
  | none => simp [extendFromFile, eq_comm]
  | some path =>
    simp only [extendFromFile, Except.map_eq_ok]
    simp [eq_comm]

theorem build_eq_ok {s : PolicySources} {keys prefixes : List Str} {rules : PolicyRules} :
    s.build keys prefixes = .ok rules ↔
      (keys ≠ [] ∨ prefixes ≠ []) ∧ rules = .allowList keys prefixes := by
  by_cases h : keys = [] ∧ prefixes = []
  · obtain ⟨rfl, rfl⟩ := h
    by_cases hf : s.hasFile = true <;> simp [PolicySources.build, hf]
  · have hk : keys ≠ [] ∨ prefixes ≠ [] := by tauto
    have hb : (keys.isEmpty && prefixes.isEmpty) = false := by
      rw [Bool.and_eq_false_iff, List.isEmpty_eq_false_iff, List.isEmpty_eq_false_iff]
      exact hk
    simp [PolicySources.build, Bool.and_assoc, hb, hk, eq_comm]

/-- A successful evaluation is an allow-list with an entry: what each source
lists, one after the other. -/
theorem evaluate_eq_ok {s : PolicySources} {keys prefixes : FileRead} {rules : PolicyRules} :
    s.evaluate keys prefixes = .ok rules ↔ ∃ allowedKeys allowedKeyPrefixes,
      extendFromFile s.inlineKeys "allowed_key".toList s.keysFile keys = .ok allowedKeys ∧
      extendFromFile s.inlineKeyPrefixes "allowed_key_prefix".toList s.keyPrefixesFile prefixes =
        .ok allowedKeyPrefixes ∧
      (allowedKeys ≠ [] ∨ allowedKeyPrefixes ≠ []) ∧
      rules = .allowList allowedKeys allowedKeyPrefixes := by
  simp only [PolicySources.evaluate, Except.bind_eq_ok, build_eq_ok]
  refine ⟨fun h => ?_, fun h => ?_⟩
  · obtain ⟨ks, hk, ps, hp, hne, rfl⟩ := h
    exact ⟨ks, ps, hk, hp, hne, rfl⟩
  · obtain ⟨ks, ps, hk, hp, hne, rfl⟩ := h
    exact ⟨ks, hk, ps, hp, hne, rfl⟩

end Bweso
