import IxrGateway.Interaction.Prog

/-!
# Programs in a world

A *world* answers the operations of a program and changes as it does so.  What
it may answer is a relation `step w o r w'`: in `w` the operation `o` may get
the answer `r` and leave the world as `w'`.

`Exec step p w a w'` runs one program to its end, with nothing else going on.
-/

namespace Interaction

open Prog

/-- What the world answers, and becomes. -/
abbrev Answers (S : Sig) (W : Type) := W → (o : S.Op) → S.Res o → W → Prop

/-- `Exec step p w a w'`: run in the world `w`, the program `p` can return `a` and leave `w'`. -/
inductive Exec {S : Sig} {W α : Type} (step : Answers S W) : Prog S α → W → α → W → Prop where
  | ret {a : α} {w : W} : Exec step (.ret a) w a w
  | ask {o : S.Op} {k : S.Res o → Prog S α} {r : S.Res o} {w w₁ w' : W} {a : α} :
      step w o r w₁ → Exec step (k r) w₁ a w' → Exec step (.ask o k) w a w'

variable {S : Sig} {W α : Type} {step : Answers S W} {w w' : W}

theorem exec_ret_iff {a b : α} : Exec step (.ret a) w b w' ↔ b = a ∧ w' = w := by
  constructor
  · intro h
    cases h
    exact ⟨rfl, rfl⟩
  · rintro ⟨rfl, rfl⟩
    exact .ret

theorem exec_ask_iff {o : S.Op} {k : S.Res o → Prog S α} {a : α} :
    Exec step (.ask o k) w a w' ↔ ∃ r w₁, step w o r w₁ ∧ Exec step (k r) w₁ a w' := by
  constructor
  · intro h
    cases h with
    | ask hs hk => exact ⟨_, _, hs, hk⟩
  · rintro ⟨r, w₁, hs, hk⟩
    exact .ask hs hk

theorem exec_bind_iff {β : Type} {p : Prog S α} {f : α → Prog S β} {b : β} :
    Exec step (p >>= f) w b w' ↔ ∃ a w₁, Exec step p w a w₁ ∧ Exec step (f a) w₁ b w' := by
  induction p generalizing w with
  | ret a =>
    constructor
    · intro h
      exact ⟨a, w, .ret, h⟩
    · rintro ⟨a', w₁, h₁, h₂⟩
      obtain ⟨rfl, rfl⟩ := exec_ret_iff.mp h₁
      exact h₂
  | ask o k ih =>
    rw [ask_bind, exec_ask_iff]
    constructor
    · rintro ⟨r, w₁, hs, h⟩
      obtain ⟨a, w₂, h₁, h₂⟩ := (ih r).mp h
      exact ⟨a, w₂, .ask hs h₁, h₂⟩
    · rintro ⟨a, w₂, h₁, h₂⟩
      obtain ⟨r, w₁, hs, h⟩ := exec_ask_iff.mp h₁
      exact ⟨r, w₁, hs, (ih r).mpr ⟨a, w₂, h, h₂⟩⟩

end Interaction
