import Bweso.Sanity.Auth

/-! Scoped bearer authentication: which policies load, and which capability a
header map is mapped to. -/

namespace Bweso

/-! ### ASCII texts -/

theorem utf8EncodeChar_ofNat : ∀ n < 128, String.utf8EncodeChar (Char.ofNat n) = [UInt8.ofNat n] := by
  decide

theorem asBytes_ascii {s : Str} (h : ∀ c ∈ s, c.toNat < 128) :
    asBytes s = s.map fun c => UInt8.ofNat c.toNat := by
  induction s with
  | nil => rfl
  | cons c s ih =>
    have hc := utf8EncodeChar_ofNat c.toNat (h c List.mem_cons_self)
    rw [Char.ofNat_toNat] at hc
    rw [asBytes, List.flatMap_cons, hc, List.map_cons, List.singleton_append]
    exact congrArg _ (ih fun d hd => h d (List.mem_cons_of_mem _ hd))

theorem ofNat_toNat_lt {b : UInt8} (h : b < 128) : (Char.ofNat b.toNat).toNat = b.toNat := by
  have hb : b.toNat < 128 := h
  have table : ∀ n < 128, (Char.ofNat n).toNat = n := by decide
  exact table _ hb

theorem asBytes_map_ofNat {b : Bytes} (h : ∀ x ∈ b, x < 128) :
    asBytes (b.map fun x => Char.ofNat x.toNat) = b := by
  have hascii : ∀ c ∈ b.map fun x => Char.ofNat x.toNat, c.toNat < 128 := by
    intro c hc
    obtain ⟨x, hx, rfl⟩ := List.mem_map.mp hc
    rw [ofNat_toNat_lt (h x hx)]
    exact h x hx
  rw [asBytes_ascii hascii, List.map_map]
  conv_rhs => rw [← List.map_id b]
  refine List.map_congr_left fun x hx => ?_
  simp [ofNat_toNat_lt (h x hx)]

/-- A byte `to_str` accepts. -/
def visible (b : UInt8) : Bool := (32 ≤ b && b < 127) || b == 9

theorem visible_lt {b : UInt8} (h : visible b = true) : b < 128 := by
  simp only [visible, Bool.or_eq_true, Bool.and_eq_true, decide_eq_true_eq, beq_iff_eq] at h
  rcases h with ⟨-, h⟩ | h
  · exact UInt8.lt_trans h (by decide)
  · rw [h]
    decide

theorem headerToStr_eq_some {value : Bytes} {s : Str} :
    headerToStr value = some s ↔ value = asBytes s ∧ ∀ b ∈ asBytes s, visible b = true := by
  have hunfold : headerToStr value =
      if value.all visible then some (value.map fun b => Char.ofNat b.toNat) else none := rfl
  rw [hunfold]
  refine ⟨fun h => ?_, fun ⟨hv, hvis⟩ => ?_⟩
  · by_cases hall : value.all visible = true
    · rw [if_pos hall, Option.some.injEq] at h
      have hvis := List.all_eq_true.mp hall
      have hv := asBytes_map_ofNat fun x hx => visible_lt (hvis x hx)
      rw [h] at hv
      exact ⟨hv.symm, by rw [hv]; exact hvis⟩
    · rw [if_neg hall] at h
      exact absurd h (by simp)
  · subst hv
    rw [if_pos (List.all_eq_true.mpr hvis), Option.some.injEq]
    apply asBytes_injective
    exact asBytes_map_ofNat fun x hx => visible_lt (hvis x hx)

/-! ### The bearer header -/

theorem toLower_eq_or_upper (c : Char) : c.toLower = c ∨ (65 ≤ c.toNat ∧ c.toNat ≤ 90) := by
  unfold Char.toLower
  split_ifs with h
  · exact Or.inr h
  · exact Or.inl rfl

/-- A scheme that equals `Bearer` but for the case of its letters is ASCII
letters. -/
theorem bearer_scheme {s : Str} (h : eqIgnoreAsciiCase s "Bearer".toList = true) :
    ∀ c ∈ s, 65 ≤ c.toNat ∧ c.toNat < 127 := by
  intro c hc
  have hlower : "Bearer".toList.map toAsciiLowercase = "bearer".toList := by decide
  have hmap : s.map toAsciiLowercase = "bearer".toList := by
    rw [← hlower]
    exact beq_iff_eq.mp h
  have hm : c.toLower ∈ "bearer".toList := by
    rw [← hmap]
    exact List.mem_map_of_mem hc
  have hletters : ∀ d ∈ "bearer".toList, 65 ≤ d.toNat ∧ d.toNat < 127 := by simp
  rcases toLower_eq_or_upper c with hl | ⟨h1, h2⟩
  · rw [hl] at hm
    exact hletters c hm
  · exact ⟨h1, by omega⟩

theorem graphic_visible {b : UInt8} (h : isAsciiGraphic b = true) :
    visible b = true ∧ isAsciiWhitespace b = false := by
  have table : ∀ n < 256, isAsciiGraphic (UInt8.ofNat n) = true →
      visible (UInt8.ofNat n) = true ∧ isAsciiWhitespace (UInt8.ofNat n) = false := by
    decide +kernel
  have := table b.toNat b.toNat_lt
  rw [UInt8.ofNat_toNat] at this
  exact this h

theorem bearerToken_eq_some {headers : HeaderMap} {token : Str} :
    bearerToken headers = some token ↔ ∃ value scheme,
      headers.getAll "authorization".toList = [value] ∧
      headerToStr value = some (scheme ++ ' ' :: token) ∧ ' ' ∉ scheme ∧
      eqIgnoreAsciiCase scheme "Bearer".toList = true ∧ token ≠ [] ∧
      ∀ b ∈ asBytes token, isAsciiWhitespace b = false := by
  unfold bearerToken
  match hall : headers.getAll "authorization".toList with
  | [] => simp
  | _ :: _ :: _ => simp
  | [value] =>
    simp only [Option.bind_eq_bind, Option.bind_eq_some_iff, List.cons.injEq, and_true, Prod.exists]
    refine ⟨fun ⟨raw, hraw, scheme, t, hsplit, h⟩ => ?_, fun ⟨_, scheme, hv, hstr, hsp, hs, hne, hws⟩ => ?_⟩
    · split_ifs at h with hc
      simp only [Option.some.injEq] at h
      subst h
      obtain ⟨rfl, hsp⟩ := splitOnce_eq_some.mp hsplit
      simp only [Bool.or_eq_true, Bool.not_eq_true', not_or, Bool.not_eq_false, List.isEmpty_iff,
        List.any_eq_true, not_exists, not_and, Bool.not_eq_true] at hc
      exact ⟨value, scheme, rfl, hraw, hsp, hc.1.1, hc.1.2, hc.2⟩
    · subst hv
      refine ⟨_, hstr, scheme, token, splitOnce_eq_some.mpr ⟨rfl, hsp⟩, ?_⟩
      have hany : (asBytes token).any isAsciiWhitespace = false := by
        simpa using hws
      rw [hs, hany]
      simp [hne]

/-- For a token of graphic characters, the header form is all there is to check. -/
theorem bearerToken_graphic {headers : HeaderMap} {token : Str} (hne : token ≠ [])
    (h : ∀ b ∈ asBytes token, isAsciiGraphic b = true) :
    bearerToken headers = some token ↔ ∃ value scheme,
      headers.getAll "authorization".toList = [value] ∧ value = asBytes (scheme ++ ' ' :: token) ∧
      eqIgnoreAsciiCase scheme "Bearer".toList = true := by
  rw [bearerToken_eq_some]
  refine ⟨fun ⟨value, scheme, hall, hstr, _, hs, _⟩ => ?_, fun ⟨value, scheme, hall, hv, hs⟩ => ?_⟩
  · exact ⟨value, scheme, hall, (headerToStr_eq_some.mp hstr).1, hs⟩
  · have hscheme := bearer_scheme hs
    refine ⟨value, scheme, hall, headerToStr_eq_some.mpr ⟨hv, fun b hb => ?_⟩, fun hm => ?_, hs, hne,
      fun b hb => (graphic_visible (h b hb)).2⟩
    · rw [asBytes_append, List.mem_append, ← List.singleton_append, asBytes_append, List.mem_append] at hb
      rcases hb with hb | hb | hb
      · rw [asBytes_ascii fun c hc => lt_trans (hscheme c hc).2 (by decide)] at hb
        obtain ⟨c, hc, rfl⟩ := List.mem_map.mp hb
        have table : ∀ n < 127, 65 ≤ n → visible (UInt8.ofNat n) = true := by decide
        exact table _ (hscheme c hc).2 (hscheme c hc).1
      · have hspace : asBytes [' '] = [32] := by decide
        rw [hspace, List.mem_singleton] at hb
        rw [hb]
        decide
      · exact (graphic_visible (h b hb)).1
    · have := (hscheme ' ' hm).1
      exact absurd this (by decide)

theorem bearerToken_valid {headers : HeaderMap} {token : Str} (h : ValidToken token) :
    bearerToken headers = some token ↔ ∃ value scheme,
      headers.getAll "authorization".toList = [value] ∧ value = asBytes (scheme ++ ' ' :: token) ∧
      eqIgnoreAsciiCase scheme "Bearer".toList = true := by
  apply bearerToken_graphic
  · rintro rfl
    have := h.1
    simp [minScopedTokenBytes] at this
  · exact h.2.2

/-! ### Policies that load -/

/-- The documented form of an auth policy. -/
structure RawAuthPolicy.Valid (p : RawAuthPolicy) : Prop where
  version : p.version = 1
  capabilities_pos : 1 ≤ p.capabilities.length
  capabilities_le : p.capabilities.length ≤ 1024
  capabilities : ∀ c ∈ p.capabilities, c.WellFormed
  names : (p.capabilities.map RawCapability.name).Nodup
  tokens_le : p.tokens.length ≤ 4096
  tokens : p.tokens.Nodup

section
variable {prim : Primitives} {p : RawAuthPolicy}

theorem loads_iff_valid (hNC : NoCollision prim p.tokens) : p.Loads prim ↔ p.Valid := by
  refine ⟨fun h => ?_, fun h => ?_⟩
  · exact ⟨h.version, List.length_pos_iff.mpr h.capabilities_ne, h.capabilities_le, h.wellFormed, h.names,
      h.tokens_le, hNC.nodup_digests.mp h.digests⟩
  · exact ⟨h.version, List.length_pos_iff.mp h.capabilities_pos, h.capabilities_le, h.capabilities, h.names,
      h.tokens_le, hNC.nodup_digests.mpr h.tokens⟩

/-- A token of a loaded policy belongs to one capability. -/
theorem capability_unique (h : p.Loads prim) {token : Str} {c c' : RawCapability}
    (hc : c ∈ p.capabilities) (hc' : c' ∈ p.capabilities) (ht : token ∈ c.tokens) (ht' : token ∈ c'.tokens) :
    c = c' := by
  have hnodup : p.tokens.Nodup := List.Nodup.of_map _ h.digests
  have hpair := (List.nodup_flatMap.mp hnodup).2
  have hsymm : Std.Symm (Function.onFun List.Disjoint RawCapability.tokens) :=
    ⟨fun _ _ hd => List.Disjoint.symm hd⟩
  by_contra hne
  exact hpair.forall hc hc' hne ht ht'

theorem authorize_loaded {rules : ScopedAuthRules} (h : ScopedAuthRules.tryFrom prim p = .ok rules)
    {token : Str} (hNC : NoCollision prim (token :: p.tokens)) {scope : AuthorizedScope} :
    (ScopedAuthPolicy.mk rules).authorize prim token = some scope ↔
      ∃ c ∈ p.capabilities, token ∈ c.tokens ∧ scope = .scoped c.rules := by
  obtain ⟨hload, rfl⟩ := tryFrom_eq_ok.mp h
  -- a match is a capability that lists the token itself
  have hmatch : ∀ found, matchCapability (TokenDigest.new prim token)
      (p.capabilities.map (RawCapability.load prim)) = some found →
      ∃ c ∈ p.capabilities, token ∈ c.tokens ∧ found = c.load prim := by
    intro found hfound
    obtain ⟨hmem, hdigest⟩ := matchCapability_some hfound
    obtain ⟨c, hc, rfl⟩ := List.mem_map.mp hmem
    obtain ⟨t, ht, heq⟩ := List.mem_map.mp hdigest
    have htp : t ∈ p.tokens := List.mem_flatMap.mpr ⟨c, hc, ht⟩
    have := hNC t (List.mem_cons_of_mem _ htp) token List.mem_cons_self heq
    exact ⟨c, hc, this ▸ ht, rfl⟩
  unfold ScopedAuthPolicy.authorize ScopedAuthRules.authorize
  refine ⟨fun hauth => ?_, fun ⟨c, hc, ht, hscope⟩ => ?_⟩
  · simp only at hauth
    split_ifs at hauth
    obtain ⟨found, hfound, rfl⟩ := Option.map_eq_some_iff.mp hauth
    obtain ⟨c, hc, ht, rfl⟩ := hmatch found hfound
    exact ⟨c, hc, ht, rfl⟩
  · have hvalid := (hload.wellFormed c hc).tokens token ht
    have hgate : ¬ ((asBytes token).length < minScopedTokenBytes ∨
        maxScopedTokenBytes < (asBytes token).length) := by
      have h1 := hvalid.1
      have h2 := hvalid.2.1
      omega
    simp only [if_neg hgate, Option.map_eq_some_iff]
    cases hfound : matchCapability (TokenDigest.new prim token)
        (p.capabilities.map (RawCapability.load prim)) with
    | none =>
      have := matchCapability_none.mp hfound _ (List.mem_map_of_mem hc)
      exact absurd (List.mem_map_of_mem ht) this
    | some found =>
      obtain ⟨c', hc', ht', rfl⟩ := hmatch found hfound
      obtain rfl := capability_unique hload hc hc' ht ht'
      exact ⟨_, rfl, hscope.symm⟩

end

/-- Loading accepts exactly the documented policies, and a header map is
authorized exactly when its one bearer token is listed, with the allow-list of
the only capability that lists it. -/
theorem scoped_token_capability (prim : Primitives) (p : RawAuthPolicy) (headers : HeaderMap)
    (hNC : NoCollision prim ((bearerToken headers).toList ++ p.tokens)) :
    ((∃ rules, ScopedAuthRules.tryFrom prim p = .ok rules) ↔ p.Valid) ∧
    ∀ rules, ScopedAuthRules.tryFrom prim p = .ok rules →
      (∀ scope, (WebhookAuth.scoped ⟨rules⟩).authorize prim headers = some scope ↔
        ∃ value scheme token c, headers.getAll "authorization".toList = [value] ∧
          value = asBytes (scheme ++ ' ' :: token) ∧
          eqIgnoreAsciiCase scheme "Bearer".toList = true ∧
          c ∈ p.capabilities ∧ token ∈ c.tokens ∧
          (∀ c' ∈ p.capabilities, token ∈ c'.tokens → c' = c) ∧ scope = .scoped c.rules) ∧
      ∀ c ∈ p.capabilities, ∀ token ∈ c.tokens,
        (WebhookAuth.scoped ⟨rules⟩).authorize prim
            [("authorization".toList, asBytes ("Bearer ".toList ++ token))] = some (.scoped c.rules) := by
  have hNCp : NoCollision prim p.tokens := fun a ha b hb =>
    hNC a (List.mem_append_right _ ha) b (List.mem_append_right _ hb)
  refine ⟨⟨fun ⟨rules, h⟩ => ?_, fun h => ?_⟩, fun rules h => ⟨fun scope => ?_, fun c hc token ht => ?_⟩⟩
  · exact (loads_iff_valid hNCp).mp (tryFrom_eq_ok.mp h).1
  · exact ⟨_, tryFrom_eq_ok.mpr ⟨(loads_iff_valid hNCp).mpr h, rfl⟩⟩
  · have hload := (tryFrom_eq_ok.mp h).1
    have hNCt : ∀ token, bearerToken headers = some token → NoCollision prim (token :: p.tokens) := by
      intro token htoken
      simpa [htoken] using hNC
    simp only [WebhookAuth.authorize, Option.bind_eq_bind, Option.bind_eq_some_iff]
    refine ⟨fun ⟨token, htoken, hauth⟩ => ?_, fun ⟨value, scheme, token, c, hall, hv, hs, hc, ht, _, hsc⟩ => ?_⟩
    · obtain ⟨c, hc, ht, hsc⟩ := (authorize_loaded h (hNCt token htoken)).mp hauth
      have hvalid := (hload.wellFormed c hc).tokens token ht
      obtain ⟨value, scheme, hall, hv, hs⟩ := (bearerToken_valid hvalid).mp htoken
      exact ⟨value, scheme, token, c, hall, hv, hs, hc, ht,
        fun c' hc' ht' => capability_unique hload hc' hc ht' ht, hsc⟩
    · have hvalid := (hload.wellFormed c hc).tokens token ht
      have htoken := (bearerToken_valid hvalid).mpr ⟨value, scheme, hall, hv, hs⟩
      exact ⟨token, htoken, (authorize_loaded h (hNCt token htoken)).mpr ⟨c, hc, ht, hsc⟩⟩
  · have hload := (tryFrom_eq_ok.mp h).1
    have hvalid := (hload.wellFormed c hc).tokens token ht
    have htoken : bearerToken [("authorization".toList, asBytes ("Bearer ".toList ++ token))] = some token :=
      (bearerToken_valid hvalid).mpr ⟨_, "Bearer".toList, rfl, rfl, by decide⟩
    have hmem : token ∈ p.tokens := List.mem_flatMap.mpr ⟨c, hc, ht⟩
    have hNCt : NoCollision prim (token :: p.tokens) := by
      intro a ha b hb
      refine hNCp a ?_ b ?_
      · rcases List.mem_cons.mp ha with rfl | ha
        · exact hmem
        · exact ha
      · rcases List.mem_cons.mp hb with rfl | hb
        · exact hmem
        · exact hb
    simp only [WebhookAuth.authorize, htoken]
    exact (authorize_loaded h hNCt).mpr ⟨c, hc, ht, rfl⟩

/-- The request of the only token of `onePolicy`, its scheme in capitals. -/
def oneRequest : HeaderMap := [("authorization".toList, asBytes ("BEARER ".toList ++ List.replicate 32 'a'))]

theorem scoped_token_capability_one :
    onePolicy.Valid ∧
    (WebhookAuth.scoped ⟨⟨[oneCapability.load vectors.primitives]⟩⟩).authorize vectors.primitives
      oneRequest = some (.scoped oneCapability.rules) := by
  have hb : bearerToken oneRequest = some (List.replicate 32 'a') := by decide
  have hNC : NoCollision vectors.primitives ((bearerToken oneRequest).toList ++ onePolicy.tokens) := by
    rw [hb]
    intro a ha b hb _
    have htokens : onePolicy.tokens = [List.replicate 32 'a'] := rfl
    simp only [htokens, Option.toList_some, List.singleton_append, List.mem_cons, List.not_mem_nil,
      or_false, or_self] at ha hb
    rw [ha, hb]
  obtain ⟨hvalid, hauth⟩ := scoped_token_capability vectors.primitives onePolicy oneRequest hNC
  refine ⟨hvalid.mp ⟨_, onePolicy_tryFrom⟩, ?_⟩
  refine ((hauth _ onePolicy_tryFrom).1 _).mpr ⟨_, "BEARER".toList, List.replicate 32 'a', oneCapability, rfl,
    rfl, by decide, List.mem_singleton.mpr rfl, by decide, ?_, rfl⟩
  intro c hc _
  exact List.mem_singleton.mp hc

end Bweso
