import Bweso.Proofs.Coverage
import Bweso.Proofs.Reload
import Bweso.Spec.Inline

/-! Inline policy: what a provider started from the rendered variables allows,
against the entries they were rendered from and against what the coverage
checker makes of a variable. -/

namespace Bweso

/-! ### Startup from the two variables -/

theorem startInline_eq_ok {keys keyPrefixes : Option Str} {policy : SelectorPolicy} :
    startInline keys keyPrefixes = .ok policy ↔
      (clapValues keys ≠ [] ∨ clapValues keyPrefixes ≠ []) ∧
      (∀ e ∈ clapValues keys, trim e ≠ []) ∧ (∀ e ∈ clapValues keyPrefixes, trim e ≠ []) ∧
      policy = ⟨.allowList ((clapValues keys).map trim) ((clapValues keyPrefixes).map trim),
        (inlineArgs keys keyPrefixes).sources⟩ := by
  have heval : ∀ rules, (inlineArgs keys keyPrefixes).sources.evaluate .openFailed .openFailed = .ok rules ↔
      (clapValues keys ≠ [] ∨ clapValues keyPrefixes ≠ []) ∧
        rules = .allowList ((clapValues keys).map trim) ((clapValues keyPrefixes).map trim) := by
    intro rules
    simp only [evaluate_eq_ok, extendFromFile, inlineArgs, PolicyArgs.sources, Except.ok.injEq]
    simp
  refine ⟨fun h => ?_, fun h => ?_⟩
  · obtain ⟨hsources, hk, hp, hrules⟩ := fromArgs_eq_ok h
    rcases hrules with ⟨-, hks, hps, -⟩ | hrules
    · -- without entries the provider is not configured at all
      simp only [inlineArgs] at hks hps
      simp [startInline, SelectorPolicy.fromArgs, inlineArgs, hks, hps] at h
    · obtain ⟨hne, hrules⟩ := (heval _).mp hrules
      refine ⟨hne, hk, hp, ?_⟩
      obtain ⟨rules, sources⟩ := policy
      simp only at hsources hrules
      rw [hsources, hrules]
  · obtain ⟨hne, hk, hp, rfl⟩ := h
    have hconf : (clapValues keys).isEmpty = false ∨ (clapValues keyPrefixes).isEmpty = false := by
      rcases hne with hne | hne
      · exact Or.inl (List.isEmpty_eq_false_iff.mpr hne)
      · exact Or.inr (List.isEmpty_eq_false_iff.mpr hne)
    have hkeys : normalizePolicyEntries "allowed_key".toList (clapValues keys) =
        .ok ((clapValues keys).map trim) := normalizePolicyEntries_eq_ok.mpr ⟨hk, rfl⟩
    have hprefixes : normalizePolicyEntries "allowed_key_prefix".toList (clapValues keyPrefixes) =
        .ok ((clapValues keyPrefixes).map trim) := normalizePolicyEntries_eq_ok.mpr ⟨hp, rfl⟩
    have hrules := (heval _).mpr ⟨hne, rfl⟩
    simp only [PolicyArgs.sources, inlineArgs] at hrules
    simp only [startInline, SelectorPolicy.fromArgs, inlineArgs, hkeys, hprefixes, Except.ok_bind, hrules]
    rcases hconf with hconf | hconf <;> simp [hconf, PolicyArgs.sources]

theorem startInline_allows {keys keyPrefixes : Option Str} {policy : SelectorPolicy} {key : Str}
    (h : startInline keys keyPrefixes = .ok policy) :
    policy.rules.allows key = true ↔
      (∃ e ∈ clapValues keys, trim e = key) ∨ ∃ e ∈ clapValues keyPrefixes, trim e <+: key := by
  obtain ⟨-, -, -, rfl⟩ := startInline_eq_ok.mp h
  simp [allowList_allows]

/-! ### The chart's lists -/

theorem clapValues_renderInline (entries : List Str) :
    clapValues (renderInline entries) = entries.flatMap (·.splitOn ',') := by
  unfold renderInline
  by_cases h : entries = []
  · subst h
    rfl
  · rw [if_neg (by simpa using h)]
    exact Text.splitOn_intercalate_eq_flatMap ',' h

theorem fragment_iff {entries : List Str} {f : Str} :
    Fragment entries f ↔ ∃ e ∈ clapValues (renderInline entries), trim e = f := by
  rw [clapValues_renderInline]
  simp only [Fragment, List.mem_flatMap]
  refine ⟨fun h => ?_, fun h => ?_⟩
  · obtain ⟨entry, hentry, piece, hpiece, rfl⟩ := h
    exact ⟨piece, ⟨entry, hentry, hpiece⟩, rfl⟩
  · obtain ⟨piece, ⟨entry, hentry, hpiece⟩, rfl⟩ := h
    exact ⟨entry, hentry, piece, hpiece, rfl⟩

theorem startRendered_blank {allowedKeys allowedKeyPrefixes : List Str} {policy : SelectorPolicy}
    (h : startRendered allowedKeys allowedKeyPrefixes = .ok policy) :
    ¬ Fragment allowedKeys [] ∧ ¬ Fragment allowedKeyPrefixes [] := by
  obtain ⟨-, hk, hp, -⟩ := startInline_eq_ok.mp h
  simp only [fragment_iff, not_exists, not_and]
  exact ⟨hk, hp⟩

theorem startRendered_allows {allowedKeys allowedKeyPrefixes : List Str} {policy : SelectorPolicy} {key : Str}
    (h : startRendered allowedKeys allowedKeyPrefixes = .ok policy) :
    policy.rules.allows key = true ↔
      Fragment allowedKeys key ∨ ∃ f, Fragment allowedKeyPrefixes f ∧ f <+: key := by
  rw [startInline_allows h, fragment_iff]
  refine or_congr_right ⟨fun h => ?_, fun h => ?_⟩
  · obtain ⟨e, he, hpre⟩ := h
    exact ⟨trim e, fragment_iff.mpr ⟨e, he, rfl⟩, hpre⟩
  · obtain ⟨f, hf, hpre⟩ := h
    obtain ⟨e, he, rfl⟩ := fragment_iff.mp hf
    exact ⟨e, he, hpre⟩

theorem startRendered_ok {allowedKeys allowedKeyPrefixes : List Str} {f : Str}
    (hf : Fragment allowedKeys f ∨ Fragment allowedKeyPrefixes f) (hk : ¬ Fragment allowedKeys [])
    (hp : ¬ Fragment allowedKeyPrefixes []) : ∃ policy, startRendered allowedKeys allowedKeyPrefixes = .ok policy := by
  simp only [fragment_iff, not_exists, not_and] at hk hp
  refine ⟨_, startInline_eq_ok.mpr ⟨?_, hk, hp, rfl⟩⟩
  rcases hf with hf | hf
  · obtain ⟨e, he, -⟩ := fragment_iff.mp hf
    exact Or.inl (List.ne_nil_of_mem he)
  · obtain ⟨e, he, -⟩ := fragment_iff.mp hf
    exact Or.inr (List.ne_nil_of_mem he)

/-- Entries without commas are their own fragments. -/
theorem fragmentsGranted_of_no_comma {allowedKeys allowedKeyPrefixes : List Str} (hk : ∀ k ∈ allowedKeys, ',' ∉ k)
    (hp : ∀ p ∈ allowedKeyPrefixes, ',' ∉ p) : FragmentsGranted allowedKeys allowedKeyPrefixes := by
  refine ⟨fun f hf => ?_, fun f hf key hpre => ?_⟩
  · obtain ⟨k, hmem, piece, hpiece, rfl⟩ := hf
    rw [List.splitOn_eq_singleton (hk k hmem), List.mem_singleton] at hpiece
    exact Or.inl ⟨k, hmem, by rw [hpiece]⟩
  · obtain ⟨p, hmem, piece, hpiece, rfl⟩ := hf
    rw [List.splitOn_eq_singleton (hp p hmem), List.mem_singleton] at hpiece
    rw [hpiece] at hpre
    exact Or.inr ⟨p, hmem, hpre⟩

/-- With a character to spare, a fragment of a prefix is harmless only when an
entry is a prefix of it already. -/
theorem granted_extensions_iff {allowedKeys allowedKeyPrefixes : List Str} {c : Char} {f : Str}
    (hc : ∀ p ∈ allowedKeyPrefixes, c ∉ trim p) :
    (∀ key, f <+: key → Granted allowedKeys allowedKeyPrefixes key) ↔
      ∃ p ∈ allowedKeyPrefixes, trim p <+: f := by
  refine ⟨fun h => ?_, fun ⟨p, hp, hpre⟩ key hkey => Or.inr ⟨p, hp, hpre.trans hkey⟩⟩
  -- a key too long for any exact entry, which leaves every prefix entry at the spare character
  set n := (allowedKeys.map fun k => (trim k).length).sum + 1
  rcases h (f ++ List.replicate n c) (List.prefix_append _ _) with ⟨k, hk, hkey⟩ | ⟨p, hp, hpre⟩
  · have hlen := congrArg List.length hkey
    have hle : (trim k).length ≤ (allowedKeys.map fun k => (trim k).length).sum :=
      List.single_le_sum (by simp) _ (List.mem_map_of_mem hk)
    simp only [List.length_append, List.length_replicate] at hlen
    omega
  · refine ⟨p, hp, ?_⟩
    rcases List.prefix_or_prefix_of_prefix hpre (List.prefix_append _ _) with h | ⟨t, ht⟩
    · exact h
    · rw [← ht, List.prefix_append_right_inj] at hpre
      cases t with
      | nil => simp [← ht]
      | cons x t =>
        have hx : x = c := List.eq_of_mem_replicate (hpre.subset List.mem_cons_self)
        exact absurd (by simp [← ht, hx]) (hc p hp)

/-! ### The checker on a variable -/

theorem lineReads_iff {value entry : Str} : LineReads value entry ↔ entry ∈ parsePolicyEntries value :=
  mem_parsePolicyEntries.symm

/-- A provider with one variable starts unless a piece of it is blank. -/
theorem startVariable_eq_ok {kind : PolicyFileKind} {value : Str} :
    (∃ policy, startVariable value kind = .ok policy) ↔ ¬ VariableLists value [] := by
  cases kind with
  | exact => simp [startVariable, startInline_eq_ok, clapValues, VariableLists]
  | prefixes => simp [startVariable, startInline_eq_ok, clapValues, VariableLists]

theorem startVariable_allows {kind : PolicyFileKind} {value key : Str} {policy : SelectorPolicy} :
    startVariable value kind = .ok policy →
      (policy.rules.allows key = true ↔
        match kind with
        | .exact => VariableLists value key
        | .prefixes => ∃ e, VariableLists value e ∧ e <+: key) := by
  cases kind with
  | exact =>
    intro h
    rw [startInline_allows h]
    simp [clapValues, VariableLists]
  | prefixes =>
    intro h
    rw [startInline_allows h]
    simp [clapValues, VariableLists]

theorem covered_of_lineReads {kind : PolicyFileKind} {value entry : Str} (h : LineReads value entry) :
    covered kind value entry = true := by
  rw [covered_iff]
  cases kind with
  | exact => exact lineReads_iff.mp h
  | prefixes => exact ⟨entry, lineReads_iff.mp h, List.prefix_rfl⟩

end Bweso
