import Bweso.Lib.Result
import Bweso.Spec.Basic

/-! What the string functions compute, in terms of concatenation, prefixes and
UTF-8. -/

namespace Bweso

/-! ### Trimming -/

@[simp] theorem trim_nil : trim [] = [] := rfl

@[simp] theorem trim_trim (s : Str) : trim (trim s) = trim s := Text.trimBy_idem _ _

theorem blank_iff (s : Str) : blank s = true ↔ trim s = [] := by simp [blank]

theorem requireNonEmpty_eq_ok {value field : Str} {u : Unit} :
    requireNonEmpty value field = .ok u ↔ trim value ≠ [] := by
  by_cases h : blank value = true
  · simp [requireNonEmpty, h, (blank_iff value).mp h]
  · simp [requireNonEmpty, h, mt (blank_iff value).mpr h]

/-! ### Prefixes and cuts -/

theorem stripPrefix_eq_some {s p r : Str} : stripPrefix s p = some r ↔ s = p ++ r := by
  induction p generalizing s with
  | nil => cases s <;> simp [stripPrefix]
  | cons d p ih =>
    cases s with
    | nil => simp [stripPrefix]
    | cons c s =>
      by_cases h : c = d
      · simp [stripPrefix, h, ih]
      · simp [stripPrefix, h]

@[simp] theorem stripPrefix_append (p r : Str) : stripPrefix (p ++ r) p = some r :=
  stripPrefix_eq_some.mpr rfl

theorem startsWith_iff (s p : Str) : startsWith s p = true ↔ p <+: s := by
  rw [startsWith, Option.isSome_iff_exists]
  refine ⟨fun h => ?_, fun h => ?_⟩
  · obtain ⟨r, hr⟩ := h
    exact ⟨r, (stripPrefix_eq_some.mp hr).symm⟩
  · obtain ⟨r, rfl⟩ := h
    exact ⟨r, stripPrefix_append p r⟩

theorem splitOnce_eq_some {c : Char} {s a b : Str} :
    splitOnce c s = some (a, b) ↔ s = a ++ c :: b ∧ c ∉ a := by
  induction s generalizing a with
  | nil => simp [splitOnce]
  | cons d s ih =>
    by_cases h : d = c
    · subst h
      cases a with
      | nil => simp [splitOnce]
      | cons x a =>
        simp only [splitOnce, if_true, Option.some.injEq, Prod.mk.injEq, List.cons_append,
          List.cons.injEq, List.mem_cons, not_or]
        refine ⟨fun hiff => ?_, fun hiff => ?_⟩
        · obtain ⟨h, -⟩ := hiff
          exact absurd h (by simp)
        · obtain ⟨⟨hd, -⟩, hne, -⟩ := hiff
          exact absurd hd hne
    · cases a with
      | nil => simp [splitOnce, h]
      | cons x a =>
        have : ∀ p : Str × Str, (d :: p.1, p.2) = (x :: a, b) ↔ d = x ∧ p = (a, b) := by
          rintro ⟨p, q⟩
          simp only [Prod.mk.injEq, List.cons.injEq, and_assoc]
        simp only [splitOnce, h, if_false, Option.map_eq_some_iff, this, List.cons_append,
          List.cons.injEq, List.mem_cons, not_or]
        refine ⟨fun hiff => ?_, fun hiff => ?_⟩
        · obtain ⟨p, hp, rfl, rfl⟩ := hiff
          obtain ⟨hs, hc⟩ := ih.mp hp
          exact ⟨⟨rfl, hs⟩, Ne.symm h, hc⟩
        · obtain ⟨⟨rfl, hs⟩, -, hc⟩ := hiff
          exact ⟨(a, b), ih.mpr ⟨hs, hc⟩, rfl, rfl⟩

/-! ### UTF-8 -/

@[simp] theorem asBytes_nil : asBytes [] = [] := rfl

@[simp] theorem asBytes_append (s t : Str) : asBytes (s ++ t) = asBytes s ++ asBytes t := by
  simp [asBytes]

theorem mk_asBytes (s : Str) : ByteArray.mk (asBytes s).toArray = s.utf8Encode := by
  apply ByteArray.ext
  simp [List.utf8Encode, asBytes]

@[simp] theorem fromUtf8_asBytes (s : Str) : fromUtf8 (asBytes s) = some s := by
  rw [fromUtf8, mk_asBytes, List.utf8Decode?_utf8Encode]
  simp

theorem asBytes_of_fromUtf8 {b : Bytes} {s : Str} (h : fromUtf8 b = some s) : asBytes s = b := by
  obtain ⟨a, ha, rfl⟩ := Option.map_eq_some_iff.mp h
  have henc : a.toList.utf8Encode = ByteArray.mk b.toArray := by
    have := ByteArray.utf8Encode_get_utf8Decode? (b := ByteArray.mk b.toArray) (h := by simp [ha])
    simpa [ha] using this
  have hdata := congrArg (fun x : ByteArray => x.data.toList) (mk_asBytes a.toList |>.trans henc)
  simpa using hdata

theorem asBytes_injective : Function.Injective asBytes := by
  intro s t h
  have := congrArg fromUtf8 h
  simpa using this

/-- Reading one byte past a limit shows a text within it to be the whole file. -/
theorem fromUtf8_take {bytes : Bytes} {s : Str} {n : ℕ} (hlen : (asBytes s).length ≤ n) :
    fromUtf8 (bytes.take (n + 1)) = some s ↔ bytes = asBytes s := by
  refine ⟨fun h => ?_, fun h => ?_⟩
  · have hb := asBytes_of_fromUtf8 h
    have hle : bytes.length ≤ n + 1 := by
      rw [hb, List.length_take] at hlen
      omega
    rw [hb, List.take_of_length_le hle]
  · rw [h, List.take_of_length_le (by omega), fromUtf8_asBytes]

end Bweso
