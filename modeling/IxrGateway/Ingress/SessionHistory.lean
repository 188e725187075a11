import IxrGateway.GoStrings
import IxrGateway.Routing.Catalog

/-!
# Session history in a request

`SessionMiddleware` puts the stored turns of a session before the messages of
the request.  The oldest turns are left out if the whole would not fit the
model's context window.
-/

namespace Ixr.Ingress

open GoStrings Routing List

/-- The share of the window to fill. -/
def contextHeadroom : ℚ := 0.80

/-- `estimateTokens`: a token is about four bytes, and each message costs four more. -/
def estimateTokens (messages : List Message) : Int :=
  (messages.map fun m => len m.content / 4 + 4).sum

/-- The loop of `trimToContextWindow`: drop the oldest turn until the rest fits. -/
def dropTurns (available : Int) : List Message → List Message
  | first :: second :: rest =>
    if available < estimateTokens (first :: second :: rest) then dropTurns available rest
    else first :: second :: rest
  | history => if available < estimateTokens history then [] else history

/-- The tokens left for the history. -/
def availableTokens (incoming : List Message) (model : String) : Int :=
  truncate (contextWindowFor model * contextHeadroom) - estimateTokens incoming

/-- `trimToContextWindow`. -/
def trimToContextWindow (history incoming : List Message) (model : String) : List Message :=
  if history = [] then history
  else
    let available := availableTokens incoming model
    if available ≤ 0 then [] else dropTurns available history

/-- Step 5 of `SessionMiddleware.ServeHTTP`: the request with its history, and how long that is. -/
def injectHistory (stored : List Message) (req : RequestEnvelope) : RequestEnvelope × Int :=
  let history := trimToContextWindow stored req.messages req.model
  ({ req with messages := history ++ req.messages }, history.length)

/-! ## Whole turns -/

/-- The messages of the turns. -/
def turnMessages (turns : List (Message × Message)) : List Message :=
  turns.flatMap fun turn => [turn.1, turn.2]

theorem estimateTokens_cons (m : Message) (messages : List Message) :
    estimateTokens (m :: messages) = len m.content / 4 + 4 + estimateTokens messages := by
  simp [estimateTokens]

theorem estimateTokens_nonneg (messages : List Message) : 0 ≤ estimateTokens messages := by
  induction messages with
  | nil => exact le_refl 0
  | cons m messages ih =>
    have hlen := len_nonneg m.content
    rw [estimateTokens_cons]
    omega

theorem eight_le_estimateTokens (first second : Message) (rest : List Message) :
    8 ≤ estimateTokens (first :: second :: rest) := by
  have hfirst := len_nonneg first.content
  have hsecond := len_nonneg second.content
  have hrest := estimateTokens_nonneg rest
  rw [estimateTokens_cons, estimateTokens_cons]
  omega

/-- There is room for a turn of history. -/
def HistoryFits (req : RequestEnvelope) : Prop := 8 ≤ availableTokens req.messages req.model

instance (req : RequestEnvelope) : Decidable (HistoryFits req) :=
  inferInstanceAs (Decidable (8 ≤ availableTokens req.messages req.model))

variable {available : Int} {req : RequestEnvelope} {turn : Message × Message}
  {turns : List (Message × Message)}

theorem dropTurns_eq_nil (hsmall : available < 8) (hpos : 0 < available) :
    ∀ turns, dropTurns available (turnMessages turns) = []
  | [] => by simp [turnMessages, dropTurns]
  | turn :: turns => by
    have hmany := eight_le_estimateTokens turn.1 turn.2 (turnMessages turns)
    have hdrop : available < estimateTokens (turn.1 :: turn.2 :: turnMessages turns) := by omega
    have hcons : turnMessages (turn :: turns) = turn.1 :: turn.2 :: turnMessages turns := rfl
    rw [hcons, dropTurns, if_pos hdrop]
    exact dropTurns_eq_nil hsmall hpos turns

theorem injectHistory_of_not_fits (h : ¬ HistoryFits req) (turns : List (Message × Message)) :
    injectHistory (turnMessages turns) req = (req, 0) := by
  have hnil : trimToContextWindow (turnMessages turns) req.messages req.model = [] := by
    unfold trimToContextWindow
    split
    · assumption
    · by_cases hpos : availableTokens req.messages req.model ≤ 0
      · simp [hpos]
      · simp only [hpos, if_false]
        exact dropTurns_eq_nil (not_le.mp h) (not_le.mp hpos) turns
  simp [injectHistory, hnil]

theorem injectHistory_of_le
    (h : estimateTokens [turn.1, turn.2] ≤ availableTokens req.messages req.model) :
    injectHistory (turnMessages [turn]) req =
      ({ req with messages := turn.1 :: turn.2 :: req.messages }, 2) := by
  have hmany := eight_le_estimateTokens turn.1 turn.2 []
  have hpos : ¬ availableTokens req.messages req.model ≤ 0 := by omega
  have hkeep : trimToContextWindow (turnMessages [turn]) req.messages req.model =
      [turn.1, turn.2] := by
    simp [trimToContextWindow, turnMessages, dropTurns, hpos, not_lt.mpr h]
  simp [injectHistory, hkeep]

/-- A turn of two messages under four bytes. -/
structure ShortTurn (turn : Message × Message) : Prop where
  user : len turn.1.content < 4
  assistant : len turn.2.content < 4

theorem injectHistory_of_fits (h : HistoryFits req) (hshort : ShortTurn turn) :
    injectHistory (turnMessages [turn]) req =
      ({ req with messages := turn.1 :: turn.2 :: req.messages }, 2) := by
  have hcost : estimateTokens [turn.1, turn.2] = 8 := by
    have huser := len_nonneg turn.1.content
    have hassistant := len_nonneg turn.2.content
    have huser' := hshort.user
    have hassistant' := hshort.assistant
    have hnil : estimateTokens [] = 0 := rfl
    rw [estimateTokens_cons, estimateTokens_cons, hnil]
    omega
  refine injectHistory_of_le ?_
  rw [hcost]
  exact h

/-! ## The longest history that fits -/

theorem dropTurns_longest (hpos : 0 ≤ available) (turns : List (Message × Message)) :
    ∃ kept, dropTurns available (turnMessages turns) = turnMessages kept ∧ kept <:+ turns ∧
      estimateTokens (turnMessages kept) ≤ available ∧
      ∀ other, other <:+ turns → estimateTokens (turnMessages other) ≤ available →
        other <:+ kept := by
  induction turns with
  | nil =>
    refine ⟨[], ?_, suffix_refl _, hpos, fun other hother _ => hother⟩
    simp [turnMessages, dropTurns]
  | cons turn turns ih =>
    have hcons : turnMessages (turn :: turns) = turn.1 :: turn.2 :: turnMessages turns := rfl
    rcases lt_or_ge available (estimateTokens (turnMessages (turn :: turns))) with hlt | hle
    · obtain ⟨kept, heq, hsuffix, hfits, hlongest⟩ := ih
      refine ⟨kept, ?_, hsuffix.trans (suffix_cons turn turns), hfits, ?_⟩
      · rw [hcons] at hlt ⊢
        rw [dropTurns, if_pos hlt, heq]
      · intro other hother hother'
        rcases suffix_cons_iff.mp hother with rfl | hother
        · omega
        · exact hlongest other hother hother'
    · refine ⟨turn :: turns, ?_, suffix_refl _, hle, fun other hother _ => hother⟩
      rw [hcons] at hle ⊢
      rw [dropTurns, if_neg (not_lt.mpr hle)]

theorem estimateTokens_pos (h : turns ≠ []) : 0 < estimateTokens (turnMessages turns) := by
  obtain ⟨turn, rest, rfl⟩ := exists_cons_of_ne_nil h
  have hmany := eight_le_estimateTokens turn.1 turn.2 (turnMessages rest)
  exact lt_of_lt_of_le (by decide) hmany

theorem turnMessages_eq_nil_iff : turnMessages turns = [] ↔ turns = [] := by
  cases turns with
  | nil => exact iff_of_true rfl rfl
  | cons turn turns => exact iff_of_false (cons_ne_nil _ _) (cons_ne_nil _ _)

theorem exists_longest_history (turns : List (Message × Message)) (incoming : List Message)
    (model : String) :
    ∃ kept, trimToContextWindow (turnMessages turns) incoming model = turnMessages kept ∧
      kept <:+ turns ∧
      (kept ≠ [] → estimateTokens (turnMessages kept) ≤ availableTokens incoming model) ∧
      ∀ other, other <:+ turns → other ≠ [] →
        estimateTokens (turnMessages other) ≤ availableTokens incoming model →
          other <:+ kept := by
  rcases le_or_gt (availableTokens incoming model) 0 with hle | hgt
  · -- any turn costs more than there is
    refine ⟨[], ?_, nil_suffix, fun h => absurd rfl h, ?_⟩
    · rw [trimToContextWindow]
      split
      · assumption
      · exact if_pos hle
    · intro other _ hne hother
      have hpos := estimateTokens_pos hne
      omega
  · obtain ⟨kept, heq, hsuffix, hfits, hlongest⟩ := dropTurns_longest hgt.le turns
    refine ⟨kept, ?_, hsuffix, fun _ => hfits, fun other hother _ => hlongest other hother⟩
    rw [← heq, trimToContextWindow]
    split
    · next hempty =>
      rw [hempty]
      simp [dropTurns, estimateTokens]
    · exact if_neg (not_le.mpr hgt)

/-- Of the history, the longest end of whole turns is kept that fits the budget of the model
together with the request.  Nothing is kept exactly if no end fits but the empty one. -/
theorem trimmed_history_longest (turns : List (Message × Message)) (incoming : List Message)
    (model : String) :
    ∃ kept, trimToContextWindow (turnMessages turns) incoming model = turnMessages kept ∧
      kept <:+ turns ∧
      (kept ≠ [] → estimateTokens (turnMessages kept) + estimateTokens incoming ≤
        truncate (contextWindowFor model * contextHeadroom)) ∧
      (∀ other, other <:+ turns → other ≠ [] →
        estimateTokens (turnMessages other) + estimateTokens incoming ≤
          truncate (contextWindowFor model * contextHeadroom) → other <:+ kept) ∧
      (trimToContextWindow (turnMessages turns) incoming model = [] ↔
        ∀ other, other <:+ turns → other ≠ [] →
          truncate (contextWindowFor model * contextHeadroom) <
            estimateTokens (turnMessages other) + estimateTokens incoming) := by
  have hbudget : truncate (contextWindowFor model * contextHeadroom) =
      availableTokens incoming model + estimateTokens incoming := by
    rw [availableTokens, sub_add_cancel]
  obtain ⟨kept, heq, hsuffix, hfits, hlongest⟩ := exists_longest_history turns incoming model
  refine ⟨kept, heq, hsuffix, ?_, ?_, ?_⟩
  · intro hne
    have hkept := hfits hne
    omega
  · intro other hother hne hother'
    exact hlongest other hother hne (by omega)
  · rw [heq, turnMessages_eq_nil_iff]
    constructor
    · rintro rfl other hother hne
      by_contra hother'
      exact hne (suffix_nil.mp (hlongest other hother hne (by omega)))
    · intro hnone
      by_contra hne
      have hkept := hfits hne
      have hkept' := hnone kept hsuffix hne
      omega

def questionTurn : Message × Message :=
  ({ role := "user", content := "q" }, { role := "assistant", content := "a" })

theorem question_turn_kept :
    trimToContextWindow (turnMessages [questionTurn]) [] "gpt-5.2" =
      turnMessages [questionTurn] := by
  obtain ⟨kept, heq, hsuffix, -, hlongest, -⟩ :=
    trimmed_history_longest [questionTurn] [] "gpt-5.2"
  have hkept : [questionTurn] <:+ kept :=
    hlongest [questionTurn] (suffix_refl _) (cons_ne_nil _ _) (by decide +kernel)
  rw [heq, hsuffix.eq_of_length_le hkept.length_le]

end Ixr.Ingress
