import Mathlib

/-! Computations that stop at a failed check, and machines whose steps are such
computations. An invariant of a machine also shows that no step fails. -/

/-- The computation passes all its checks and its result satisfies `P`. -/
def Ensures {α : Type} (x : Option α) (P : α → Prop) : Prop := ∃ a, x = some a ∧ P a

namespace Ensures

variable {α β : Type} {x : Option α} {P Q : α → Prop} {R : β → Prop}

theorem some {a : α} (h : P a) : Ensures (Option.some a) P := ⟨a, rfl, h⟩

theorem mono (h : Ensures x P) (hpq : ∀ a, P a → Q a) : Ensures x Q := by
  obtain ⟨a, hx, hp⟩ := h
  exact ⟨a, hx, hpq a hp⟩

theorem bind {f : α → Option β} (h : Ensures x P) (hf : ∀ a, P a → Ensures (f a) R) :
    Ensures (x >>= f) R := by
  obtain ⟨a, rfl, hp⟩ := h
  exact hf a hp

theorem of_eq_some {a : α} (h : Ensures x P) (he : x = Option.some a) : P a := by
  obtain ⟨b, hb, hp⟩ := h
  cases hb.symm.trans he
  exact hp

theorem guard_bind {c : Prop} [Decidable c] {f : Unit → Option β} (hc : c) (h : Ensures (f ()) R) :
    Ensures (guard c >>= f) R := by
  simpa [guard, hc] using h

theorem ite {c : Prop} [Decidable c] {y : Option α} (hx : c → Ensures x P) (hy : ¬ c → Ensures y P) :
    Ensures (if c then x else y) P := by
  split_ifs with h
  · exact hx h
  · exact hy h

theorem foldlM {f : β → α → Option β} {b : β} {l : List α} (hb : R b)
    (hstep : ∀ b, R b → ∀ a ∈ l, Ensures (f b a) R) : Ensures (l.foldlM f b) R := by
  induction l generalizing b with
  | nil => exact some hb
  | cons a rest ih =>
    rw [List.foldlM_cons]
    refine (hstep b hb a List.mem_cons_self).bind fun b' hb' => ?_
    exact ih hb' fun b'' h a' ha' => hstep b'' h a' (List.mem_cons_of_mem a ha')

end Ensures

theorem foldlM_invariant {α β : Type} {f : β → α → Option β} {R : β → Prop} {l : List α} {b b' : β}
    (h : l.foldlM f b = some b') (hb : R b) (hstep : ∀ b a b', R b → f b a = some b' → R b') :
    R b' := by
  induction l generalizing b with
  | nil =>
    cases h
    exact hb
  | cons a rest ih =>
    rw [List.foldlM_cons] at h
    obtain ⟨b₁, h₁, h⟩ := Option.bind_eq_some_iff.mp h
    exact ih h (hstep b a b₁ hb h₁)

/-- Subtraction of unsigned counters; it fails where the counter would underflow. -/
def checkedSub (a b : Nat) : Option Nat := if b ≤ a then some (a - b) else none

theorem ensures_checkedSub {a b : Nat} (h : b ≤ a) : Ensures (checkedSub a b) (fun c => c + b = a) :=
  ⟨a - b, if_pos h, Nat.sub_add_cancel h⟩

/-- States `σ` driven by operations `ι`. An operation may only be called when it is enabled,
and its step fails if a check in it does. -/
structure Machine (σ ι : Type) where
  initial : σ → Prop
  enabled : σ → ι → Prop
  step : σ → ι → Option σ

namespace Machine

variable {σ ι : Type}

inductive Reachable (M : Machine σ ι) : σ → Prop
  | initial {s : σ} (h : M.initial s) : Reachable M s
  | step {s s' : σ} {op : ι} (h : Reachable M s) (he : M.enabled s op)
      (hs : M.step s op = some s') : Reachable M s'

/-- The machine whose operations moreover meet `c`. -/
def restrict (M : Machine σ ι) (c : σ → ι → Prop) : Machine σ ι :=
  { M with enabled := fun s op => M.enabled s op ∧ c s op }

/-- Call the operations in turn; this fails at one that is not enabled. -/
def run (M : Machine σ ι) [∀ s op, Decidable (M.enabled s op)] (s : σ) (ops : List ι) : Option σ :=
  ops.foldlM (fun s op => if M.enabled s op then M.step s op else none) s

theorem Reachable.run {M : Machine σ ι} [∀ s op, Decidable (M.enabled s op)] {s s' : σ}
    {ops : List ι} (h : M.Reachable s) (hr : M.run s ops = some s') : M.Reachable s' := by
  induction ops generalizing s with
  | nil =>
    cases hr
    exact h
  | cons op ops ih =>
    simp only [Machine.run, List.foldlM_cons] at hr
    obtain ⟨s₁, hs₁, hr⟩ := Option.bind_eq_some_iff.mp hr
    split_ifs at hs₁ with he
    exact ih (h.step he hs₁) hr

theorem Reachable.preserved {M : Machine σ ι} {I : σ → Prop} (h0 : ∀ s, M.initial s → I s)
    (hstep : ∀ s op s', I s → M.enabled s op → M.step s op = some s' → I s') {s : σ}
    (h : M.Reachable s) : I s := by
  induction h with
  | initial h => exact h0 _ h
  | step _ he hs ih => exact hstep _ _ _ ih he hs

theorem Reachable.invariant {M : Machine σ ι} {I : σ → Prop} (h0 : ∀ s, M.initial s → I s)
    (hstep : ∀ s op, I s → M.enabled s op → Ensures (M.step s op) I) {s : σ} (h : M.Reachable s) :
    I s ∧ ∀ op, M.enabled s op → Ensures (M.step s op) I := by
  have hi : I s := h.preserved h0 fun s op s' hi he hs => (hstep s op hi he).of_eq_some hs
  exact ⟨hi, fun op he => hstep s op hi he⟩

end Machine
