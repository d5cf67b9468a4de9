import Mathlib.Logic.Function.DependsOn
import Bweso.Lib.Result

/-! Computations that look a map up and may fail: what they depend on, part by part. -/

universe u

variable {ι κ : Type*} {ε α β : Type u} {s : Set ι}

namespace DependsOn

theorem const (b : β) : DependsOn (fun _ : ι → κ => b) s := (dependsOn_const b).mono (Set.empty_subset s)

/-- A sequence depends on what its first part reads, and on what the rest reads
after a result the first part can have. -/
theorem bind {x : (ι → κ) → Except ε α} {f : (ι → κ) → α → Except ε β} (hx : DependsOn x s)
    (hf : ∀ a, (∃ d, x d = .ok a) → DependsOn (fun d => f d a) s) : DependsOn (fun d => x d >>= f d) s := by
  intro d d' h
  have hsame := hx h
  cases hd : x d with
  | error e => simp [← hsame, hd]
  | ok a =>
    simp only [← hsame, hd, Except.ok_bind]
    exact hf a ⟨d, hd⟩ h

theorem ofExcept {x : Except ε α} {f : (ι → κ) → α → Except ε β}
    (hf : ∀ a, x = .ok a → DependsOn (fun d => f d a) s) : DependsOn (fun d => x >>= f d) s :=
  (const x).bind fun a h => hf a h.choose_spec

theorem mapM {γ : Type u} {f : (ι → κ) → γ → Except ε β} {xs : List γ}
    (hf : ∀ x ∈ xs, DependsOn (fun d => f d x) s) : DependsOn (fun d => xs.mapM (f d)) s := by
  induction xs with
  | nil => exact const _
  | cons x xs ih =>
    simp only [List.mapM_cons]
    refine (hf x List.mem_cons_self).bind fun y _ => ?_
    refine (ih fun x' hx' => hf x' (List.mem_cons_of_mem x hx')).bind fun ys _ => ?_
    exact const _

end DependsOn
