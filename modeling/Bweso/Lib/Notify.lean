import Mathlib.Tactic

/-! A broadcast notification. A waiter that is enabled stays so until its future
is gone, and is woken by the next broadcast; a broadcast reaches exactly the
waiters enabled before it, and nothing is kept for those that come later. -/

structure Notify (ι : Type*) where
  /-- for an enabled waiter, whether it has been woken -/
  waiters : ι → Option Bool

namespace Notify

variable {ι : Type*}

def init : Notify ι := ⟨fun _ => none⟩

def notifyWaiters (n : Notify ι) : Notify ι := ⟨fun i => (n.waiters i).map fun _ => true⟩

def enabled (n : Notify ι) (i : ι) : Bool := (n.waiters i).isSome

def woken (n : Notify ι) (i : ι) : Bool := n.waiters i == some true

@[simp] theorem enabled_notifyWaiters (n : Notify ι) (i : ι) : n.notifyWaiters.enabled i = n.enabled i := by
  simp [enabled, notifyWaiters]

@[simp] theorem woken_notifyWaiters (n : Notify ι) (i : ι) : n.notifyWaiters.woken i = n.enabled i := by
  cases h : n.waiters i with
  | none => simp [woken, enabled, notifyWaiters, h]
  | some b => simp [woken, enabled, notifyWaiters, h]

variable [DecidableEq ι]

def enable (n : Notify ι) (i : ι) : Notify ι := ⟨Function.update n.waiters i (some false)⟩

/-- The waiter's future is dropped. -/
def forget (n : Notify ι) (i : ι) : Notify ι := ⟨Function.update n.waiters i none⟩

@[simp] theorem enabled_enable_self (n : Notify ι) (i : ι) : (n.enable i).enabled i = true := by
  simp [enabled, enable]

variable {i j : ι}

@[simp] theorem enabled_enable_ne (n : Notify ι) (h : j ≠ i) : (n.enable i).enabled j = n.enabled j := by
  simp [enabled, enable, h]

@[simp] theorem woken_enable_ne (n : Notify ι) (h : j ≠ i) : (n.enable i).woken j = n.woken j := by
  simp [woken, enable, h]

@[simp] theorem enabled_forget_ne (n : Notify ι) (h : j ≠ i) : (n.forget i).enabled j = n.enabled j := by
  simp [enabled, forget, h]

@[simp] theorem woken_forget_ne (n : Notify ι) (h : j ≠ i) : (n.forget i).woken j = n.woken j := by
  simp [woken, forget, h]

end Notify
