import IxrGateway.Interaction.Prog

/-!
# Rules for the next event

A rule says of an event whether it may come after a given past.  `Obeys R past t`
says that each event of `t` may, after what came before it.  A trace obeys a
rule part by part.  What every run of a program obeys, the program obeys at
every point where it is about to perform an operation.
-/

namespace Interaction

open List

variable {S : Sig} {α : Type} {R : Trace S → Event S → Prop}

/-- After `past`, each event of the trace may come when it comes. -/
def Obeys (R : Trace S → Event S → Prop) : Trace S → Trace S → Prop
  | _, [] => True
  | past, e :: t => R past e ∧ Obeys R (past ++ [e]) t

theorem obeys_append {past t t' : Trace S} :
    Obeys R past (t ++ t') ↔ Obeys R past t ∧ Obeys R (past ++ t) t' := by
  induction t generalizing past with
  | nil => simp [Obeys]
  | cons e t ih => simp only [cons_append, Obeys, ih, append_assoc, nil_append, and_assoc]

theorem obeys_of_forall {past t : Trace S} (h : ∀ e ∈ t, ∀ past, R past e) : Obeys R past t := by
  induction t generalizing past with
  | nil => trivial
  | cons e t ih =>
    obtain ⟨he, ht⟩ := forall_mem_cons.mp h
    exact ⟨he past, ih ht⟩

theorem Steps.obeys [∀ o, Nonempty (S.Res o)] {p : Prog S α} {t : Trace S} {o : S.Op}
    {k : S.Res o → Prog S α} (hsteps : Steps p t (.ask o k))
    (hobeys : Ensures p fun t _ => Obeys R [] t) (r : S.Res o) : R t ⟨o, r⟩ := by
  obtain ⟨t', a, hrun, _⟩ := can_run (k r)
  have hall := obeys_append.mp (hobeys _ _ (hsteps.runs (.ask hrun)))
  exact hall.2.1

end Interaction
