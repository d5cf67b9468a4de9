import Bweso.Sanity.Auth
import Bweso.Sanity.Policy

/-! Hot reload over whole histories: after any sequence of reload cycles both
holders serve what their newest successful evaluation gave. -/

namespace Bweso

/-! ### Startup -/

theorem normalizePolicyEntries_eq_ok {name : Str} {entries normalized : List Str} :
    normalizePolicyEntries name entries = .ok normalized ↔
      (∀ e ∈ entries, trim e ≠ []) ∧ normalized = entries.map trim := by
  induction entries generalizing normalized with
  | nil => simp [normalizePolicyEntries, eq_comm]
  | cons e entries ih =>
    unfold normalizePolicyEntries
    simp only [Except.bind_eq_ok, Except.mapError_eq_ok, requireNonEmpty_eq_ok, trim_trim, ih,
      Except.pure_eq_ok, Except.ok.injEq, List.forall_mem_cons, List.map_cons]
    refine ⟨fun h => ?_, fun h => ?_⟩
    · obtain ⟨_, he, _, ⟨hes, rfl⟩, rfl⟩ := h
      exact ⟨⟨he, hes⟩, rfl⟩
    · obtain ⟨⟨he, hes⟩, rfl⟩ := h
      exact ⟨(), he, _, ⟨hes, rfl⟩, rfl⟩

/-- The sources that `from_args` keeps. -/
def PolicyArgs.sources (args : PolicyArgs) : PolicySources :=
  { inlineKeys := args.allowedKeys.map trim, inlineKeyPrefixes := args.allowedKeyPrefixes.map trim
    keysFile := args.allowedKeysFile, keyPrefixesFile := args.allowedKeyPrefixesFile }

/-- An accepted startup has no blank inline entry and is one of two: allow-all
with nothing else configured, or an evaluation of the sources. -/
theorem fromArgs_eq_ok {args : PolicyArgs} {keys keyPrefixes : FileRead} {policy : SelectorPolicy}
    (h : SelectorPolicy.fromArgs args keys keyPrefixes = .ok policy) :
    policy.sources = args.sources ∧
      (∀ e ∈ args.allowedKeys, trim e ≠ []) ∧ (∀ e ∈ args.allowedKeyPrefixes, trim e ≠ []) ∧
      ((policy.rules = .allowAll ∧ args.allowedKeys = [] ∧ args.allowedKeyPrefixes = [] ∧
          args.sources.hasFile = false) ∨
        args.sources.evaluate keys keyPrefixes = .ok policy.rules) := by
  unfold SelectorPolicy.fromArgs at h
  simp only [Except.throw_bind, Except.guard_eq_ok, Except.bind_eq_ok, normalizePolicyEntries_eq_ok,
    Except.pure_eq_ok] at h
  obtain ⟨-, hboth, _, ⟨hk, rfl⟩, _, ⟨hp, rfl⟩, hrules⟩ := h
  by_cases hall : args.allowAllSelectors = true
  · simp only [hall, if_true, Except.ok_bind, Except.ok.injEq] at hrules
    simp only [hall, Bool.true_and, Bool.or_eq_true, Bool.not_eq_true', List.isEmpty_eq_false_iff,
      not_or, not_not, Bool.not_eq_true] at hboth
    obtain ⟨⟨hks, hps⟩, hkf, hpf⟩ := hboth
    subst hrules
    exact ⟨rfl, hk, hp, Or.inl ⟨rfl, hks, hps, by simp [PolicySources.hasFile, PolicyArgs.sources, hkf, hpf]⟩⟩
  · simp only [hall, if_false, Bool.false_eq_true, Except.bind_eq_ok, Except.ok.injEq] at hrules
    obtain ⟨rules, heval, rfl⟩ := hrules
    exact ⟨rfl, hk, hp, Or.inr heval⟩

/-! ### Cycles -/

/-- What the sources evaluate to in a cycle. -/
def PolicySources.evaluateIn (sources : PolicySources) (cycle : PolicyCycle) :
    Except PolicyError PolicyRules := sources.evaluate cycle.keys cycle.keyPrefixes

theorem evaluate_without_file {sources : PolicySources} (h : sources.hasFile = false)
    (k p k' p' : FileRead) : sources.evaluate k p = sources.evaluate k' p' := by
  simp only [PolicySources.hasFile, Bool.or_eq_false_iff, Option.isSome_eq_false_iff,
    Option.isNone_iff_eq_none] at h
  simp only [PolicySources.evaluate, h.1, h.2, extendFromFile]

theorem reload_sources (policy : SelectorPolicy) (keys keyPrefixes : FileRead) :
    (policy.reload keys keyPrefixes).2.sources = policy.sources := by
  by_cases h : policy.sources.hasFile = true <;> simp [SelectorPolicy.reload, h]

theorem reload_rules (policy : SelectorPolicy) (keys keyPrefixes : FileRead)
    (h : policy.sources.hasFile = true) :
    (policy.reload keys keyPrefixes).2.rules =
      LastGood.keep policy.rules (policy.sources.evaluate keys keyPrefixes) := by
  simp [SelectorPolicy.reload, h, LastGood.refresh_snd]

theorem reload_without_file (policy : SelectorPolicy) (keys keyPrefixes : FileRead)
    (h : policy.sources.hasFile = false) : (policy.reload keys keyPrefixes).2 = policy := by
  simp [SelectorPolicy.reload, h]

/-- The policy and its metrics after startup and the given cycles. -/
def policyAfter (policy : SelectorPolicy) (unixNow : ℕ) (cycles : List PolicyCycle) :
    SelectorPolicy × ReloadMetrics := cycles.foldl policyReloadCycle (policyStartup policy unixNow)

theorem policyAfter_append (policy : SelectorPolicy) (unixNow : ℕ) (cycles : List PolicyCycle)
    (c : PolicyCycle) :
    policyAfter policy unixNow (cycles ++ [c]) = policyReloadCycle (policyAfter policy unixNow cycles) c := by
  simp [policyAfter]

theorem policyAfter_sources (policy : SelectorPolicy) (unixNow : ℕ) (cycles : List PolicyCycle) :
    (policyAfter policy unixNow cycles).1.sources = policy.sources := by
  induction cycles using List.reverseRecOn with
  | nil => rfl
  | append_singleton cycles c ih =>
    rw [policyAfter_append, policyReloadCycle]
    exact (reload_sources ..).trans ih

theorem policyAfter_rules (policy : SelectorPolicy) (unixNow : ℕ) (cycles : List PolicyCycle)
    (h : policy.sources.hasFile = true) :
    (policyAfter policy unixNow cycles).1.rules =
      LastGood.last policy.rules (cycles.map policy.sources.evaluateIn) := by
  induction cycles using List.reverseRecOn with
  | nil => rfl
  | append_singleton cycles c ih =>
    have hsources := policyAfter_sources policy unixNow cycles
    rw [policyAfter_append, policyReloadCycle, List.map_append, List.map_singleton, LastGood.last_append,
      ← ih]
    have := reload_rules (policyAfter policy unixNow cycles).1 c.keys c.keyPrefixes (by rw [hsources, h])
    rw [hsources] at this
    exact this

theorem policyAfter_without_file (policy : SelectorPolicy) (unixNow : ℕ) (cycles : List PolicyCycle)
    (h : policy.sources.hasFile = false) : (policyAfter policy unixNow cycles).1 = policy := by
  induction cycles using List.reverseRecOn with
  | nil => rfl
  | append_singleton cycles c ih =>
    rw [policyAfter_append, policyReloadCycle]
    simp only [ih, reload_without_file policy c.keys c.keyPrefixes h]

theorem policyAfter_counts (policy : SelectorPolicy) (unixNow : ℕ) (cycles : List PolicyCycle)
    (h : cycles ≠ [] ∨ policy.sources.hasFile = true) :
    (policyAfter policy unixNow cycles).2.active = (policyAfter policy unixNow cycles).1.rules.counts := by
  induction cycles using List.reverseRecOn with
  | nil =>
    have hfile : policy.sources.hasFile = true := by simpa using h
    simp [policyAfter, policyStartup, hfile, ReloadMetrics.recordBaseline]
  | append_singleton cycles c _ =>
    rw [policyAfter_append]
    rfl

/-- The served rules are those of the newest successful evaluation. -/
theorem policyAfter_newest {policy : SelectorPolicy} (start : PolicyCycle)
    (hstart : policy.sources.evaluateIn start = .ok policy.rules) (unixNow : ℕ)
    (cycles : List PolicyCycle) :
    ∃ c, LastGood.Newest policy.sources.evaluateIn start cycles c ∧
      policy.sources.evaluateIn c = .ok (policyAfter policy unixNow cycles).1.rules := by
  obtain ⟨c, hc, hok⟩ := LastGood.last_newest _ hstart cycles
  refine ⟨c, hc, ?_⟩
  by_cases hf : policy.sources.hasFile = true
  · rw [policyAfter_rules policy unixNow cycles hf]
    exact hok
  · have hf := Bool.eq_false_of_not_eq_true hf
    rw [policyAfter_without_file policy unixNow cycles hf]
    exact (evaluate_without_file hf ..).trans hstart

/-! ### The selector policy -/

/-- The key is an inline or file key of the evaluation in `cycle`, or extends
one of its inline or file prefixes. -/
def Sourced (args : PolicyArgs) (cycle : PolicyCycle) (key : Str) : Prop :=
  (∃ e ∈ args.allowedKeys, key = trim e) ∨
  (∃ path listed, args.allowedKeysFile = some path ∧
    readPolicyFile "allowed_key".toList path cycle.keys = .ok listed ∧ key ∈ listed) ∨
  (∃ e ∈ args.allowedKeyPrefixes, trim e <+: key) ∨
  ∃ path listed, args.allowedKeyPrefixesFile = some path ∧
    readPolicyFile "allowed_key_prefix".toList path cycle.keyPrefixes = .ok listed ∧
    ∃ e ∈ listed, e <+: key

/-- What a source adds to the inline entries is what its file lists. -/
theorem extended_mem {entries result : List Str} {name : Str} {file : Option Str} {read : FileRead} {e : Str}
    (h : extendFromFile entries name file read = .ok result) (he : e ∈ result) :
    e ∈ entries ∨ ∃ path listed, file = some path ∧ readPolicyFile name path read = .ok listed ∧
      e ∈ listed := by
  rcases extendFromFile_eq_ok.mp h with ⟨-, rfl⟩ | ⟨path, listed, hf, hr, rfl⟩
  · exact Or.inl he
  · rcases List.mem_append.mp he with he | he
    · exact Or.inl he
    · exact Or.inr ⟨path, listed, hf, hr, he⟩

theorem extended_inline {entries result : List Str} {name : Str} {file : Option Str} {read : FileRead}
    (h : extendFromFile entries name file read = .ok result) : entries ⊆ result := by
  rcases extendFromFile_eq_ok.mp h with ⟨-, rfl⟩ | ⟨path, listed, -, -, rfl⟩
  · exact List.Subset.refl _
  · exact List.subset_append_left _ _

theorem extended_nonblank {entries result : List Str} {name : Str} {file : Option Str} {read : FileRead}
    (h : extendFromFile entries name file read = .ok result) (hinline : ∀ e ∈ entries, trim e ≠ []) :
    ∀ e ∈ result, trim e ≠ [] := by
  intro e he
  rcases extended_mem h he with he | ⟨path, listed, -, hr, he⟩
  · exact hinline e he
  · obtain ⟨contents, -, -, rfl⟩ := readPolicyFile_eq_ok.mp hr
    obtain ⟨hne, htrim⟩ := policyEntries_trimmed he
    rwa [htrim]

section
variable {args : PolicyArgs} {cycle : PolicyCycle} {rules : PolicyRules}

theorem evaluated_sourced (h : args.sources.evaluateIn cycle = .ok rules) {key : Str}
    (hk : rules.allows key = true) : Sourced args cycle key := by
  obtain ⟨ks, ps, hks, hps, -, rfl⟩ := evaluate_eq_ok.mp h
  rcases allowList_allows.mp hk with hk | ⟨p, hp, hpre⟩
  · rcases extended_mem hks hk with hk | hk
    · obtain ⟨e, he, rfl⟩ := List.mem_map.mp hk
      exact Or.inl ⟨e, he, rfl⟩
    · exact Or.inr (Or.inl hk)
  · rcases extended_mem hps hp with hp | ⟨path, listed, hf, hr, hp⟩
    · obtain ⟨e, he, rfl⟩ := List.mem_map.mp hp
      exact Or.inr (Or.inr (Or.inl ⟨e, he, hpre⟩))
    · exact Or.inr (Or.inr (Or.inr ⟨path, listed, hf, hr, p, hp, hpre⟩))

theorem evaluated_inline (h : args.sources.evaluateIn cycle = .ok rules) :
    (∀ e ∈ args.allowedKeys, rules.allows (trim e) = true) ∧
      ∀ e ∈ args.allowedKeyPrefixes, ∀ key, trim e <+: key → rules.allows key = true := by
  obtain ⟨ks, ps, hks, hps, -, rfl⟩ := evaluate_eq_ok.mp h
  refine ⟨fun e he => ?_, fun e he key hpre => ?_⟩
  · exact allowList_allows.mpr (Or.inl (extended_inline hks (List.mem_map_of_mem he)))
  · exact allowList_allows.mpr (Or.inr ⟨_, extended_inline hps (List.mem_map_of_mem he), hpre⟩)

theorem evaluated_nonblank (h : args.sources.evaluateIn cycle = .ok rules)
    (hk : ∀ e ∈ args.allowedKeys, trim e ≠ []) (hp : ∀ e ∈ args.allowedKeyPrefixes, trim e ≠ []) :
    ∃ ks ps, rules = .allowList ks ps ∧ (ks ≠ [] ∨ ps ≠ []) ∧ ∀ e ∈ ks ++ ps, trim e ≠ [] := by
  obtain ⟨ks, ps, hks, hps, hne, rfl⟩ := evaluate_eq_ok.mp h
  have trimmed : ∀ entries : List Str, (∀ e ∈ entries, trim e ≠ []) →
      ∀ e ∈ entries.map trim, trim e ≠ [] := by
    intro entries hall e he
    obtain ⟨raw, hraw, rfl⟩ := List.mem_map.mp he
    rw [trim_trim]
    exact hall raw hraw
  refine ⟨ks, ps, rfl, hne, fun e he => ?_⟩
  rcases List.mem_append.mp he with he | he
  · exact extended_nonblank hks (trimmed _ hk) e he
  · exact extended_nonblank hps (trimmed _ hp) e he

end

/-- What holds of the policy and its metrics after startup in `start` and any
number of reload cycles. -/
structure PolicyHistory (args : PolicyArgs) (start : PolicyCycle) (policy : SelectorPolicy)
    (cycles : List PolicyCycle) (s : SelectorPolicy × ReloadMetrics) : Prop where
  newest : (policy.rules = .allowAll ∧ s.1.rules = .allowAll) ∨
    ∃ c, LastGood.Newest policy.sources.evaluateIn start cycles c ∧
      policy.sources.evaluateIn c = .ok s.1.rules ∧
      ∀ key, s.1.allows key = true → Sourced args c key
  failed : ∀ c e, policy.sources.evaluateIn c = .error e → (policyReloadCycle s c).1 = s.1
  narrow : policy.rules ≠ .allowAll → ∃ ks ps, s.1.rules = .allowList ks ps ∧ (ks ≠ [] ∨ ps ≠ []) ∧
    ∀ e ∈ ks ++ ps, trim e ≠ []
  inlineKeys : ∀ e ∈ args.allowedKeys, s.1.allows (trim e) = true
  inlineKeyPrefixes : ∀ e ∈ args.allowedKeyPrefixes, ∀ key, trim e <+: key → s.1.allows key = true
  counts : cycles ≠ [] ∨ policy.sources.hasFile = true → s.2.active = s.1.rules.counts

theorem failed_cycle {sources : PolicySources} {s : SelectorPolicy × ReloadMetrics} {c : PolicyCycle}
    {e : PolicyError} (hs : s.1.sources = sources) (h : sources.evaluateIn c = .error e) :
    (policyReloadCycle s c).1 = s.1 := by
  subst hs
  unfold policyReloadCycle SelectorPolicy.reload
  by_cases hf : s.1.sources.hasFile = true
  · unfold PolicySources.evaluateIn at h
    simp [hf, h, LastGood.refresh]
  · simp [hf]

theorem policyAfter_history {args : PolicyArgs} {start : PolicyCycle} {policy : SelectorPolicy}
    (h : SelectorPolicy.fromArgs args start.keys start.keyPrefixes = .ok policy) (unixNow : ℕ)
    (cycles : List PolicyCycle) :
    PolicyHistory args start policy cycles (policyAfter policy unixNow cycles) := by
  obtain ⟨hsources, hk, hp, hstart⟩ := fromArgs_eq_ok h
  have hafter := policyAfter_sources policy unixNow cycles
  rcases hstart with ⟨hall, hnk, hnp, hf⟩ | heval
  · have hsame := policyAfter_without_file policy unixNow cycles (by rw [hsources, hf])
    refine ⟨Or.inl ⟨hall, by rw [hsame, hall]⟩, fun c e he => failed_cycle hafter he,
      fun hne => absurd hall hne, ?_, ?_, policyAfter_counts policy unixNow cycles⟩
    · simp [hnk]
    · simp [hnp]
  · rw [← hsources] at heval
    obtain ⟨c, hc, hok⟩ := policyAfter_newest start heval unixNow cycles
    have hok' := hok
    rw [hsources] at hok'
    refine ⟨Or.inr ⟨c, hc, hok, fun key hkey => evaluated_sourced hok' hkey⟩,
      fun c e he => failed_cycle hafter he, fun _ => evaluated_nonblank hok' hk hp,
      (evaluated_inline hok').1, (evaluated_inline hok').2, policyAfter_counts policy unixNow cycles⟩

/-! ### The scoped auth policy -/

section
variable (prim : Primitives) (fromStr : Str → Option RawAuthPolicy)

/-- What a cycle of the auth reload task reads. -/
def readIn (cycle : FileRead × ℕ) : Except AuthPolicyError ScopedAuthRules :=
  ScopedAuthRules.read prim fromStr cycle.1

/-- The auth policy and its metrics after startup and the given cycles. -/
def authAfter (policy : ScopedAuthPolicy) (unixNow : ℕ) (cycles : List (FileRead × ℕ)) :
    ScopedAuthPolicy × ReloadMetrics :=
  cycles.foldl (authReloadCycle prim fromStr) (authStartup policy unixNow)

theorem authAfter_append (policy : ScopedAuthPolicy) (unixNow : ℕ) (cycles : List (FileRead × ℕ))
    (c : FileRead × ℕ) : authAfter prim fromStr policy unixNow (cycles ++ [c]) =
      authReloadCycle prim fromStr (authAfter prim fromStr policy unixNow cycles) c := by
  simp [authAfter]

theorem authReloadCycle_rules (s : ScopedAuthPolicy × ReloadMetrics) (c : FileRead × ℕ) :
    (authReloadCycle prim fromStr s c).1.rules = LastGood.keep s.1.rules (readIn prim fromStr c) := by
  simp [authReloadCycle, ScopedAuthPolicy.reload, LastGood.refresh_snd, readIn]

theorem authAfter_rules (policy : ScopedAuthPolicy) (unixNow : ℕ) (cycles : List (FileRead × ℕ)) :
    (authAfter prim fromStr policy unixNow cycles).1.rules =
      LastGood.last policy.rules (cycles.map (readIn prim fromStr)) := by
  induction cycles using List.reverseRecOn with
  | nil => rfl
  | append_singleton cycles c ih =>
    rw [authAfter_append, authReloadCycle_rules, List.map_append, List.map_singleton,
      LastGood.last_append, ih]

theorem authAfter_counts (policy : ScopedAuthPolicy) (unixNow : ℕ) (cycles : List (FileRead × ℕ)) :
    (authAfter prim fromStr policy unixNow cycles).2.active =
      (authAfter prim fromStr policy unixNow cycles).1.rules.counts := by
  induction cycles using List.reverseRecOn with
  | nil => rfl
  | append_singleton cycles c _ =>
    rw [authAfter_append]
    rfl

/-- What holds of the auth policy and its metrics after startup in `start` and
any number of reload cycles. -/
structure AuthHistory (start : FileRead × ℕ) (cycles : List (FileRead × ℕ))
    (s : ScopedAuthPolicy × ReloadMetrics) : Prop where
  newest : ∃ c contents raw, LastGood.Newest (readIn prim fromStr) start cycles c ∧
    c.1 = .contents (asBytes contents) ∧ fromStr contents = some raw ∧
    ScopedAuthRules.tryFrom prim raw = .ok s.1.rules ∧
    ∀ token, NoCollision prim (token :: raw.tokens) → token ∉ raw.tokens →
      s.1.authorize prim token = none
  failed : ∀ c e, readIn prim fromStr c = .error e → (authReloadCycle prim fromStr s c).1 = s.1
  counts : s.2.active = s.1.rules.counts

theorem authAfter_history {start : FileRead × ℕ} {policy : ScopedAuthPolicy}
    (h : ScopedAuthPolicy.fromFile prim fromStr start.1 = .ok policy) (unixNow : ℕ)
    (cycles : List (FileRead × ℕ)) :
    AuthHistory prim fromStr start cycles (authAfter prim fromStr policy unixNow cycles) := by
  obtain ⟨rules, hread, rfl⟩ := Except.map_eq_ok.mp h
  obtain ⟨c, hc, hok⟩ := LastGood.last_newest (readIn prim fromStr) hread cycles
  rw [← authAfter_rules prim fromStr ⟨rules⟩ unixNow cycles] at hok
  obtain ⟨contents, raw, hfile, -, hraw, hload⟩ := read_eq_ok.mp hok
  refine ⟨⟨c, contents, raw, hc, hfile, hraw, hload, fun token hNC habs => ?_⟩, fun c e he => ?_,
    authAfter_counts prim fromStr ⟨rules⟩ unixNow cycles⟩
  · exact authorize_absent hload hNC habs
  · have := authReloadCycle_rules prim fromStr (authAfter prim fromStr ⟨rules⟩ unixNow cycles) c
    rw [he] at this
    exact congrArg ScopedAuthPolicy.mk this

end

/-- One inline key and a keys file. -/
def fileArgs : PolicyArgs where
  allowedKeys := [" id:a".toList]
  allowedKeyPrefixes := []
  allowedKeysFile := some "keys".toList
  allowedKeyPrefixesFile := none
  allowAllSelectors := false

/-- A cycle whose keys file has the given contents. -/
def keysCycle (contents : Str) : PolicyCycle := ⟨.contents (asBytes contents), .openFailed, 0⟩

end Bweso
