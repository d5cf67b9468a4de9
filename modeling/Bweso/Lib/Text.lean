import Mathlib.Data.List.DropRight
import Mathlib.Data.List.Infix
import Mathlib.Tactic

/-! Lists read as text: trimming the ends by a predicate, cutting after a
separator, and how trimming and splitting commute. Nothing here fixes an
alphabet or a notion of white space. -/

namespace Text

variable {α : Type*}

/-- Remove the longest run of `p` elements at either end. -/
def trimBy (p : α → Bool) (l : List α) : List α := (l.dropWhile p).rdropWhile p

@[simp] theorem trimBy_nil (p : α → Bool) : trimBy p [] = [] := by simp [trimBy]

/-- What trimming removes lies at the two ends and satisfies the predicate. -/
theorem trimBy_decomp (p : α → Bool) (l : List α) :
    ∃ a b, l = a ++ trimBy p l ++ b ∧ (∀ x ∈ a, p x = true) ∧ ∀ x ∈ b, p x = true := by
  refine ⟨l.takeWhile p, (l.dropWhile p).rtakeWhile p, ?_,
    fun x hx => List.mem_takeWhile_imp hx, fun x hx => List.mem_rtakeWhile_imp hx⟩
  unfold trimBy
  rw [List.append_assoc, List.rdropWhile_append_rtakeWhile, List.takeWhile_append_dropWhile]

theorem trimBy_append_left {p : α → Bool} {a : List α} (ha : ∀ x ∈ a, p x = true) (l : List α) :
    trimBy p (a ++ l) = trimBy p l := by
  unfold trimBy
  rw [List.dropWhile_append_of_pos ha]

theorem trimBy_append_right {p : α → Bool} {b : List α} (hb : ∀ x ∈ b, p x = true) (l : List α) :
    trimBy p (l ++ b) = trimBy p l := by
  induction b using List.reverseRecOn with
  | nil => simp
  | append_singleton b x ih =>
    rw [← ih (fun y hy => hb y (by simp [hy])), ← List.append_assoc]
    unfold trimBy
    rw [List.dropWhile_append]
    split_ifs with he
    · -- nothing but `p` elements: both sides are empty
      rw [List.isEmpty_iff] at he
      simp [he, hb x (by simp)]
    · rw [List.rdropWhile_concat_pos _ _ _ (hb x (by simp))]

theorem mem_of_mem_trimBy {p : α → Bool} {l : List α} {x : α} (h : x ∈ trimBy p l) : x ∈ l := by
  obtain ⟨a, b, hl, -, -⟩ := trimBy_decomp p l
  rw [hl]
  exact List.mem_append_left _ (List.mem_append_right _ h)

theorem trimBy_idem (p : α → Bool) (l : List α) : trimBy p (trimBy p l) = trimBy p l := by
  obtain ⟨a, b, h, ha, hb⟩ := trimBy_decomp p l
  conv_rhs => rw [h, trimBy_append_right hb, trimBy_append_left ha]

theorem trimBy_eq_self {p : α → Bool} {l : List α} (h : ∀ x ∈ l, p x = false) : trimBy p l = l := by
  have hdrop : l.dropWhile p = l := by
    cases l with
    | nil => rfl
    | cons x t => rw [List.dropWhile_cons, h x List.mem_cons_self]; rfl
  rw [trimBy, hdrop, List.rdropWhile_eq_self_iff]
  intro hl
  simp [h _ (List.getLast_mem hl)]

/-- The first element that stays ends what is trimmed on the left. -/
theorem head?_trimBy {p : α → Bool} {a : List α} {x : α} (ha : ∀ y ∈ a, p y = true) (hx : p x = false)
    (l : List α) : (trimBy p (a ++ x :: l)).head? = some x := by
  rw [trimBy_append_left ha, trimBy, List.dropWhile_cons_of_neg (by simp [hx])]
  induction l using List.reverseRecOn with
  | nil => rw [List.rdropWhile_singleton, hx]; rfl
  | append_singleton l y ih =>
    rw [← List.cons_append]
    by_cases hy : p y = true
    · rw [List.rdropWhile_concat_pos _ _ _ hy]
      exact ih
    · rw [List.rdropWhile_concat_neg _ _ _ hy]
      rfl

/-- Every element separates or stands in a piece. -/
theorem mem_of_splitOnP {p : α → Bool} {s : List α} {c : α} (hc : c ∈ s) :
    p c = true ∨ ∃ piece ∈ s.splitOnP p, c ∈ piece := by
  induction s with
  | nil => simp at hc
  | cons d s ih =>
    rw [List.splitOnP_cons_eq_if_modifyHead]
    split_ifs with hd
    · rcases List.mem_cons.mp hc with rfl | hc
      · exact Or.inl hd
      · rcases ih hc with h | ⟨piece, hpiece, hc⟩
        · exact Or.inl h
        · exact Or.inr ⟨piece, List.mem_cons_of_mem _ hpiece, hc⟩
    · obtain ⟨first, rest, hsplit⟩ := List.exists_cons_of_ne_nil (List.splitOnP_ne_nil p s)
      rw [hsplit] at ih ⊢
      rw [List.modifyHead_cons]
      rcases List.mem_cons.mp hc with rfl | hc
      · exact Or.inr ⟨_, List.mem_cons_self, List.mem_cons_self⟩
      · rcases ih hc with h | ⟨piece, hpiece, hc⟩
        · exact Or.inl h
        · rcases List.mem_cons.mp hpiece with rfl | hpiece
          · exact Or.inr ⟨_, List.mem_cons_self, List.mem_cons_of_mem d hc⟩
          · exact Or.inr ⟨piece, List.mem_cons_of_mem _ hpiece, hc⟩

/-! Cutting after each separator, as the line iterators of both languages do. -/

variable [DecidableEq α]

/-- Cut after every `c`; the separator stays on the piece it ends and no empty
piece is produced. -/
def splitInclusive (c : α) : List α → List (List α)
  | [] => []
  | x :: t =>
    if x = c then [x] :: splitInclusive c t
    else match splitInclusive c t with
      | [] => [[x]]
      | l :: ls => (x :: l) :: ls

theorem splitInclusive_append {c : α} {l : List α} (hl : c ∉ l) (rest : List α) :
    splitInclusive c (l ++ c :: rest) = (l ++ [c]) :: splitInclusive c rest := by
  induction l with
  | nil => simp [splitInclusive]
  | cons x l ih =>
    rw [List.mem_cons, not_or] at hl
    obtain ⟨hx, hl⟩ := hl
    rw [List.cons_append, splitInclusive, if_neg (Ne.symm hx), ih hl]
    rfl

theorem splitInclusive_of_not_mem {c : α} {l : List α} (hl : c ∉ l) (hne : l ≠ []) :
    splitInclusive c l = [l] := by
  induction l with
  | nil => exact absurd rfl hne
  | cons x l ih =>
    rw [List.mem_cons, not_or] at hl
    obtain ⟨hx, hl⟩ := hl
    rw [splitInclusive, if_neg (Ne.symm hx)]
    by_cases hnil : l = []
    · subst hnil
      rfl
    · rw [ih hl hnil]

/-- Lines put together are read apart again. -/
theorem splitInclusive_flatMap {c : α} {bodies : List (List α)} (h : ∀ body ∈ bodies, c ∉ body) :
    splitInclusive c (bodies.flatMap (· ++ [c])) = bodies.map (· ++ [c]) := by
  induction bodies with
  | nil => rfl
  | cons body bodies ih =>
    obtain ⟨hbody, hbodies⟩ := List.forall_mem_cons.mp h
    rw [List.flatMap_cons, List.append_assoc, List.singleton_append, splitInclusive_append hbody, ih hbodies,
      List.map_cons]

/-- No piece has a separator before its last element. -/
theorem not_mem_dropLast_splitInclusive {c : α} {l piece : List α} (h : piece ∈ splitInclusive c l) :
    c ∉ piece.dropLast := by
  induction l generalizing piece with
  | nil => simp [splitInclusive] at h
  | cons x l ih =>
    rw [splitInclusive] at h
    split_ifs at h with hx
    · rcases List.mem_cons.mp h with rfl | h
      · simp
      · exact ih h
    · cases hs : splitInclusive c l with
      | nil =>
        rw [hs] at h
        rw [List.mem_singleton.mp h]
        simp
      | cons first pieces =>
        rw [hs] at h
        rcases List.mem_cons.mp h with rfl | h
        · cases first with
          | nil => simp
          | cons y first =>
            have hfirst : c ∉ (y :: first).dropLast := ih (by rw [hs]; exact List.mem_cons_self)
            rw [List.dropLast_cons_of_ne_nil (by simp), List.mem_cons]
            exact fun hm => hm.elim (fun heq => hx heq.symm) hfirst
        · exact ih (by rw [hs]; exact List.mem_cons_of_mem _ h)

/-- A piece is made of the elements that are not separators. -/
theorem mem_of_mem_splitOn {c x : α} {l piece : List α} (h : piece ∈ l.splitOn c) (hx : x ∈ piece) :
    x ∈ l ∧ x ≠ c := by
  induction l generalizing piece with
  | nil =>
    rw [List.splitOn_nil, List.mem_singleton] at h
    simp [h] at hx
  | cons y l ih =>
    rw [List.splitOn_cons_eq_if_modifyHead] at h
    split_ifs at h with hy
    · rcases List.mem_cons.mp h with rfl | h
      · simp at hx
      · exact ⟨List.mem_cons_of_mem y (ih h hx).1, (ih h hx).2⟩
    · cases hs : l.splitOn c with
      | nil => simp [hs] at h
      | cons first pieces =>
        rw [hs, List.modifyHead_cons] at h
        rcases List.mem_cons.mp h with rfl | h
        · rcases List.mem_cons.mp hx with rfl | hx
          · exact ⟨List.mem_cons_self, by simpa using hy⟩
          · have hfirst := @ih first (by rw [hs]; exact List.mem_cons_self) hx
            exact ⟨List.mem_cons_of_mem y hfirst.1, hfirst.2⟩
        · have hpiece := @ih piece (by rw [hs]; exact List.mem_cons_of_mem _ h) hx
          exact ⟨List.mem_cons_of_mem y hpiece.1, hpiece.2⟩

/-- The last piece of a split absorbs a suffix without separators. -/
theorem splitOn_append_of_not_mem (c : α) (m : List α) :
    ∃ pre last, m.splitOn c = pre ++ [last] ∧
      ∀ b, c ∉ b → (m ++ b).splitOn c = pre ++ [last ++ b] := by
  induction m with
  | nil => exact ⟨[], [], by simp, fun b hb => by simp [List.splitOn_eq_singleton hb]⟩
  | cons x t ih =>
    obtain ⟨pre, last, h1, h2⟩ := ih
    by_cases hx : x = c
    · refine ⟨[] :: pre, last, ?_, fun b hb => ?_⟩
      · simp [List.splitOn_cons_eq_if_modifyHead, hx, h1]
      · simp [List.splitOn_cons_eq_if_modifyHead, hx, h2 b hb]
    · cases pre with
      | nil =>
        refine ⟨[], x :: last, ?_, fun b hb => ?_⟩
        · simp [List.splitOn_cons_eq_if_modifyHead, hx, h1]
        · simp [List.splitOn_cons_eq_if_modifyHead, hx, h2 b hb]
      | cons y ys =>
        refine ⟨(x :: y) :: ys, last, ?_, fun b hb => ?_⟩
        · simp [List.splitOn_cons_eq_if_modifyHead, hx, h1]
        · simp [List.splitOn_cons_eq_if_modifyHead, hx, h2 b hb]

theorem splitOn_append_left_of_not_mem {c : α} {a : List α} (ha : c ∉ a) (m : List α) :
    (a ++ m).splitOn c = (m.splitOn c).modifyHead (a ++ ·) := by
  induction a with
  | nil => cases h : m.splitOn c <;> simp [h]
  | cons x a ih =>
    have hx : x ≠ c := fun e => ha (by simp [e])
    rw [List.cons_append, List.splitOn_cons_eq_if_modifyHead, ih (fun h => ha (by simp [h]))]
    simp [hx, List.modifyHead_modifyHead, Function.comp_def]

omit [DecidableEq α] in
theorem mem_of_mem_intercalate {c x : α} {parts : List (List α)} (h : x ∈ [c].intercalate parts) :
    x = c ∨ ∃ part ∈ parts, x ∈ part := by
  induction parts with
  | nil => simp [List.intercalate] at h
  | cons part parts ih =>
    cases parts with
    | nil =>
      rw [List.intercalate, List.intersperse_singleton, List.flatten_singleton] at h
      exact Or.inr ⟨part, List.mem_cons_self, h⟩
    | cons part' parts =>
      have hjoin : [c].intercalate (part :: part' :: parts) = part ++ c :: [c].intercalate (part' :: parts) := by
        simp [List.intercalate]
      rw [hjoin, List.mem_append, List.mem_cons] at h
      rcases h with h | h | h
      · exact Or.inr ⟨part, List.mem_cons_self, h⟩
      · exact Or.inl h
      · rcases ih h with rfl | ⟨q, hq, hx⟩
        · exact Or.inl rfl
        · exact Or.inr ⟨q, List.mem_cons_of_mem _ hq, hx⟩

/-- Splitting what was joined gives the pieces of every part, one part after
another. -/
theorem splitOn_intercalate_eq_flatMap (c : α) {parts : List (List α)} (h : parts ≠ []) :
    ([c].intercalate parts).splitOn c = parts.flatMap (·.splitOn c) := by
  induction parts with
  | nil => exact absurd rfl h
  | cons part parts ih =>
    cases parts with
    | nil => simp [List.intercalate]
    | cons part' parts =>
      have hjoin : [c].intercalate (part :: part' :: parts) = part ++ c :: [c].intercalate (part' :: parts) := by
        simp [List.intercalate]
      rw [hjoin, List.splitOn_append_cons_self, ih (by simp)]
      rfl

/-- Trimming a line before splitting it changes no trimmed piece. -/
theorem map_trimBy_splitOn_trimBy {p : α → Bool} {c : α} (hc : p c = false) (l : List α) :
    ((trimBy p l).splitOn c).map (trimBy p) = (l.splitOn c).map (trimBy p) := by
  obtain ⟨a, b, h, ha, hb⟩ := trimBy_decomp p l
  have hca : c ∉ a := fun hm => by simp [ha c hm] at hc
  have hcb : c ∉ b := fun hm => by simp [hb c hm] at hc
  obtain ⟨pre, last, h1, h2⟩ := splitOn_append_of_not_mem c (trimBy p l)
  conv_rhs => rw [h, List.append_assoc, splitOn_append_left_of_not_mem hca, h2 b hcb]
  rw [h1]
  cases pre with
  | nil => simp [trimBy_append_left ha, trimBy_append_right hb]
  | cons y ys => simp [trimBy_append_left ha, trimBy_append_right hb]

/-! ### Decimal texts -/

theorem toDigits_injective {m n : ℕ} (h : Nat.toDigits 10 m = Nat.toDigits 10 n) : m = n := by
  rw [← @Nat.ofDigitChars_ten_toDigits m, h, Nat.ofDigitChars_ten_toDigits]

end Text
