import Mathlib.Data.Finmap
import Mathlib.Tactic

/-! Finite maps described by the list of their entries: what inserting at a
fresh key adds, and that the list determines the map whatever its order. -/

namespace Entries

variable {α β : Type*} [DecidableEq α] {m m' : Finmap fun _ : α => β} {l l' : List (α × β)} {k : α}

/-- The map sends each listed key to its listed value, and nothing else. -/
def Of (m : Finmap fun _ : α => β) (l : List (α × β)) : Prop := ∀ k v, m.lookup k = some v ↔ (k, v) ∈ l

theorem Of.empty : Of (∅ : Finmap fun _ : α => β) [] := by
  intro k v
  simp

theorem Of.mem_iff (h : Of m l) : k ∈ m ↔ k ∈ l.map Prod.fst := by
  rw [← Finmap.lookup_isSome, Option.isSome_iff_exists, List.mem_map]
  refine ⟨fun hiff => ?_, fun hiff => ?_⟩
  · obtain ⟨v, hv⟩ := hiff
    exact ⟨(k, v), (h k v).mp hv, rfl⟩
  · obtain ⟨⟨k', v⟩, hp, rfl⟩ := hiff
    exact ⟨v, (h _ v).mpr hp⟩

theorem Of.insert (h : Of m l) (hk : k ∉ l.map Prod.fst) (v : β) : Of (m.insert k v) (l ++ [(k, v)]) := by
  intro k' v'
  rw [List.mem_append, List.mem_singleton, Prod.mk.injEq]
  by_cases hkk : k' = k
  · subst hkk
    have hfresh : (k', v') ∉ l := fun hm => hk (List.mem_map_of_mem hm)
    rw [Finmap.lookup_insert]
    simp [hfresh, eq_comm]
  · rw [Finmap.lookup_insert_of_ne m hkk, h k' v']
    simp [hkk]

theorem Of.eq_empty_iff (h : Of m l) : m = ∅ ↔ l = [] := by
  refine ⟨fun hiff => ?_, fun hiff => ?_⟩
  · obtain rfl := hiff
    rw [List.eq_nil_iff_forall_not_mem]
    rintro ⟨k, v⟩ hp
    simpa using (h k v).mpr hp
  · obtain rfl := hiff
    apply Finmap.ext_lookup
    intro k
    rw [Finmap.lookup_empty, Option.eq_none_iff_forall_ne_some]
    intro v hv
    simpa using (h k v).mp hv

theorem Of.unique (h : Of m l) (h' : Of m' l') (hl : ∀ p, p ∈ l ↔ p ∈ l') : m = m' := by
  apply Finmap.ext_lookup
  intro k
  apply Option.ext
  intro v
  rw [h k v, h' k v, hl]

end Entries
