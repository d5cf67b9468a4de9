import Bweso.Sanity.Api

/-! Collecting a response body: the answer depends on the bytes delivered and on
nothing else about the chunks they came in. -/

namespace Bweso

section
variable {endpoint : Str} {limit : ℕ} {chunks : List Bytes} {body : Bytes}

/-- Below `2 ^ 64` the checked addition fails only where the limit does. -/
theorem overflow_or_over_iff {n : ℕ} (hlimit : limit < 2 ^ 64) : (2 ^ 64 ≤ n ∨ limit < n) ↔ limit < n := by
  refine ⟨fun h => ?_, Or.inr⟩
  rcases h with h | h
  · omega
  · exact h

theorem collectBody_eq (hlimit : limit < 2 ^ 64) (hbody : body.length ≤ limit) :
    collectBody endpoint limit chunks body =
      if limit < (body ++ chunks.flatten).length then .error (.responseTooLarge endpoint limit)
      else .ok (body ++ chunks.flatten) := by
  induction chunks generalizing body with
  | nil =>
    rw [List.flatten_nil, List.append_nil, if_neg (by omega)]
    rfl
  | cons chunk rest ih =>
    simp only [collectBody, overflow_or_over_iff hlimit, List.flatten_cons]
    by_cases hover : limit < body.length + chunk.length
    · -- a chunk that goes over the limit decides the answer whatever follows it
      rw [if_pos hover, if_pos]
      simp only [List.length_append]
      omega
    · rw [if_neg hover, ih (by rw [List.length_append]; omega), List.append_assoc]

theorem length_collectBuffers (hbody : body.length ≤ limit) :
    ∀ b ∈ collectBuffers limit chunks body, b.length ≤ limit := by
  induction chunks generalizing body with
  | nil =>
    intro b hb
    rw [List.mem_singleton.mp hb]
    exact hbody
  | cons chunk rest ih =>
    intro b hb
    simp only [collectBuffers] at hb
    split_ifs at hb with hover
    · rw [List.mem_singleton.mp hb]
      exact hbody
    · rcases List.mem_cons.mp hb with rfl | hb
      · exact hbody
      · apply ih _ b hb
        rw [List.length_append]
        omega

/-- The last buffer of the loop is the body it collects. -/
theorem getLast?_collectBuffers {b : Bytes} (h : collectBody endpoint limit chunks body = .ok b) :
    (collectBuffers limit chunks body).getLast? = some b := by
  induction chunks generalizing body with
  | nil =>
    rw [Except.ok.inj h.symm]
    rfl
  | cons chunk rest ih =>
    simp only [collectBody] at h
    simp only [collectBuffers]
    split_ifs at h ⊢
    have hlast := ih h
    rw [List.getLast?_cons, hlast]
    rfl

end

section
variable {α : Type} (fromSlice : Bytes → Option α) (endpoint : Str)

/-- `serde_json::from_slice` on the whole body. -/
def decodeWhole (body : Bytes) : Except BitwardenApiError α :=
  match fromSlice body with
  | some a => .ok a
  | none => .error (.invalidJson endpoint)

variable {limit : ℕ} (hlimit : limit < 2 ^ 64) (chunks : List Bytes)
include hlimit

theorem collectBody_whole :
    collectBody endpoint limit chunks [] =
      if limit < chunks.flatten.length then .error (.responseTooLarge endpoint limit) else .ok chunks.flatten := by
  have hcollect := @collectBody_eq endpoint limit chunks [] hlimit (Nat.zero_le _)
  rwa [List.nil_append] at hcollect

theorem decodeJsonBody_complete :
    decodeJsonBody fromSlice endpoint limit chunks true =
      if limit < chunks.flatten.length then .error (.responseTooLarge endpoint limit)
      else decodeWhole fromSlice endpoint chunks.flatten := by
  rw [decodeJsonBody, collectBody_whole endpoint hlimit]
  by_cases hover : limit < chunks.flatten.length
  · rw [if_pos hover, if_pos hover]
    rfl
  · rw [if_neg hover, if_neg hover]
    simp only [Except.ok_bind, Bool.not_true, Bool.false_eq_true, if_false]
    cases h : fromSlice chunks.flatten <;> simp [decodeWhole, h]

theorem decodeJsonBody_broken :
    decodeJsonBody fromSlice endpoint limit chunks false =
      .error (if limit < chunks.flatten.length then .responseTooLarge endpoint limit else .http) := by
  rw [decodeJsonBody, collectBody_whole endpoint hlimit]
  by_cases hover : limit < chunks.flatten.length
  · rw [if_pos hover, if_pos hover]
    rfl
  · rw [if_neg hover, if_neg hover]
    rfl

omit hlimit in
theorem decodeWhole_ne_tooLarge (body : Bytes) :
    decodeWhole fromSlice endpoint body ≠ .error (.responseTooLarge endpoint limit) := by
  unfold decodeWhole
  cases fromSlice body <;> simp

end

/-- However a body is cut into chunks, it is too large exactly when it has more
bytes than the limit and is decoded whole otherwise; the buffer never holds more
than the limit; and a delivery that breaks off is a transport failure, the only
one of the two that may be answered from stale data, exactly when what arrived is
within the limit. -/
theorem decodeJsonBody_chunking {α : Type} (fromSlice : Bytes → Option α) (endpoint : Str) (limit : ℕ)
    (hlimit : limit < 2 ^ 64) (body : Bytes) (chunks : List Bytes) (hchunks : chunks.flatten = body) :
    (decodeJsonBody fromSlice endpoint limit chunks true = .error (.responseTooLarge endpoint limit) ↔
      limit < body.length) ∧
    (body.length ≤ limit →
      decodeJsonBody fromSlice endpoint limit chunks true = decodeWhole fromSlice endpoint body) ∧
    (∀ chunks' : List Bytes, chunks'.flatten = body →
      decodeJsonBody fromSlice endpoint limit chunks' true = decodeJsonBody fromSlice endpoint limit chunks true) ∧
    (∀ buffer ∈ collectBuffers limit chunks [], buffer.length ≤ limit) ∧
    (decodeJsonBody fromSlice endpoint limit chunks false =
      .error (if limit < body.length then .responseTooLarge endpoint limit else .http)) ∧
    (∀ e, decodeJsonBody fromSlice endpoint limit chunks false = .error e →
      (e.permitsStaleCache = true ↔ body.length ≤ limit)) := by
  subst hchunks
  have hcomplete := decodeJsonBody_complete fromSlice endpoint hlimit
  have hbroken := decodeJsonBody_broken fromSlice endpoint hlimit chunks
  refine ⟨?_, fun h => ?_, fun chunks' h => ?_, ?_, hbroken, fun e he => ?_⟩
  · rw [hcomplete chunks]
    refine ⟨fun h => ?_, fun h => if_pos h⟩
    by_contra hle
    rw [if_neg hle] at h
    exact decodeWhole_ne_tooLarge fromSlice endpoint _ h
  · rw [hcomplete chunks, if_neg (by omega)]
  · rw [hcomplete chunks, hcomplete chunks', h]
  · exact length_collectBuffers (Nat.zero_le _)
  · rw [hbroken, Except.error.injEq] at he
    subst he
    split_ifs with hover
    · simp only [BitwardenApiError.permitsStaleCache, Bool.false_eq_true, false_iff]
      omega
    · simp only [BitwardenApiError.permitsStaleCache, true_iff]
      omega

/-- Eight bytes at a limit of eight, delivered with an empty chunk last. -/
theorem decodeJsonBody_chunking_at_limit :
    decodeJsonBody some "test".toList 8 [[48, 49, 50], [51, 52, 53, 54, 55], []] true =
      decodeJsonBody some "test".toList 8 [[48, 49, 50, 51, 52, 53, 54, 55]] true :=
  (decodeJsonBody_chunking some "test".toList 8 (by decide) [48, 49, 50, 51, 52, 53, 54, 55]
    [[48, 49, 50, 51, 52, 53, 54, 55]] rfl).2.2.1 _ rfl

/-! ### What a reply must be to decode -/

/-- A success status and a complete body within the limit, whose JSON is `a`. -/
def HttpReply.Carries {α : Type} (fromSlice : Bytes → Option α) (reply : HttpReply) (a : α) : Prop :=
  ∃ status chunks, reply = .response status chunks true ∧ 200 ≤ status ∧ status ≤ 299 ∧
    chunks.flatten.length ≤ maxUpstreamResponseBytes ∧ fromSlice chunks.flatten = some a

theorem decodeWhole_eq_ok {α : Type} {fromSlice : Bytes → Option α} {endpoint : Str} {body : Bytes} {a : α} :
    decodeWhole fromSlice endpoint body = .ok a ↔ fromSlice body = some a := by
  unfold decodeWhole
  cases fromSlice body <;> simp

theorem decodeJson_eq_ok {α : Type} {fromSlice : Bytes → Option α} {endpoint : Str} {reply : HttpReply} {a : α} :
    decodeJson fromSlice endpoint reply = .ok a ↔ reply.Carries fromSlice a := by
  have hlimit : maxUpstreamResponseBytes < 2 ^ 64 := by decide
  refine ⟨fun h => ?_, fun h => ?_⟩
  · cases reply with
    | transportError => exact absurd h (by simp [decodeJson])
    | response status chunks complete =>
      simp only [decodeJson] at h
      split_ifs at h with hstatus
      cases complete with
      | false =>
        rw [decodeJsonBody_broken fromSlice endpoint hlimit] at h
        exact absurd h (by simp)
      | true =>
        rw [decodeJsonBody_complete fromSlice endpoint hlimit] at h
        split_ifs at h with hover
        exact ⟨status, chunks, rfl, hstatus.1, hstatus.2, not_lt.mp hover, decodeWhole_eq_ok.mp h⟩
  · obtain ⟨status, chunks, rfl, h1, h2, hlen, hfrom⟩ := h
    rw [decodeJson, if_pos ⟨h1, h2⟩, decodeJsonBody_complete fromSlice endpoint hlimit, if_neg (not_lt.mpr hlen)]
    exact decodeWhole_eq_ok.mpr hfrom

end Bweso
