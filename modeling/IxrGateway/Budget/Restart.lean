import IxrGateway.Budget.Plugin
import IxrGateway.Interaction.World
import IxrGateway.LineJournal

/-!
# Restarting the budget plugin

`New` replays `budget.jsonl` into the spend map and opens the file for
appending.  It opens the file only if there was one to replay, so a plugin that
starts in an empty directory never writes.  `Reset` clears the maps and leaves
the journal as it is.

The plugin's spend is an account book: priced events add to their scopes, and
`Reset` empties a scope (`spendAfter`).  The journal is the same book without
the resets.  A restart therefore restores the spend exactly when the resets
threw nothing away, if there was a journal at all.
-/

namespace Ixr.Budget

open Interaction LineJournal List Function Codec

/-- `deltaEntry`, one line of the journal. -/
structure DeltaEntry where
  key : String
  spentUSD : ℚ
  timestamp : Int
deriving Repr, DecidableEq

/-- The scanner's limit in `replayJournal`, `1<<20`. -/
def maxLine : Nat := 1048576

/-- A plugin and the file `budget.jsonl` of its directory, which may not exist. -/
structure Ledger (β : Type) where
  plugin : Plugin
  file : Option (List β)
  /-- `p.file != nil`. -/
  journaling : Bool

section

variable {β : Type} (c : Codec β DeltaEntry) (limits : Limits) (hasBus : Bool)

/-- One line of `replayJournal`. -/
def replayEntry (spent : String → ℚ) (e : DeltaEntry) : String → ℚ :=
  update spent e.key (spent e.key + e.spentUSD)

/-- `New` on a journal directory.  Without a file, `replayJournal` returns before it opens one. -/
def Ledger.new [DecidableEq β] (file : Option (List β)) : Ledger β :=
  match file with
  | none => { plugin := {}, file := none, journaling := false }
  | some text =>
    { plugin := { spent := (c.entries maxLine text).foldl replayEntry fun _ => 0 }
      file := some text
      journaling := true }

/-- How the plugin's operations act on a ledger.  Other operations do not touch it. -/
def Ledger.step : Answers effects (Ledger β) := fun w o r w' =>
  match o, r with
  | .budgetIntercept id, r =>
    r = (w.plugin.intercept limits id).1 ∧
      w' = { w with plugin := (w.plugin.intercept limits id).2 }
  | .budgetRelease ev, _ => w' = { w with plugin := w.plugin.release limits ev }
  | .budgetSpend scope cost, r =>
    r = (w.plugin.spend scope cost).1 ∧ w' = { w with plugin := (w.plugin.spend scope cost).2 }
  | .budgetJournal scope cost, _ =>
    if w.journaling then
      ∃ now, w' = { w with file := w.file.map fun text => c.append text ⟨scope, cost, now⟩ }
    else w' = w
  | .budgetWarned scope, _ => w' = { w with plugin := w.plugin.warn scope }
  | _, _ => w' = w

/-- A call of the plugin. -/
inductive Call where
  | onEvent (ev : CallEvent)
  | reset (key : String)

/-- The calls one after the other. -/
inductive Calls : Ledger β → List Call → Ledger β → Prop where
  | nil {w : Ledger β} : Calls w [] w
  | onEvent {w w₁ w' : Ledger β} {ev : CallEvent} {cs : List Call} :
      Exec (Ledger.step c limits) (Budget.onEvent limits hasBus ev) w () w₁ → Calls w₁ cs w' →
      Calls w (.onEvent ev :: cs) w'
  | reset {w w' : Ledger β} {key : String} {cs : List Call} :
      Calls { w with plugin := w.plugin.reset key } cs w' → Calls w (.reset key :: cs) w'

end

/-! ## The account book -/

/-- The scopes an event charges: none if it is a shadow call or has no cost. -/
def chargedScopes (ev : CallEvent) : List String :=
  if ev.shadow.isSome || !hasCost ev then [] else eventScopes ev

/-- What an event adds to a scope: its cost for each time it names the scope. -/
def charge (ev : CallEvent) (k : String) : ℚ := (chargedScopes ev).count k * ev.cost.totalUSD

/-- The spending after a call. -/
def Call.book (spent : String → ℚ) : Call → String → ℚ
  | .onEvent ev => fun k => spent k + charge ev k
  | .reset key => update spent key 0

/-- The spending after calls. -/
def spendAfter (spent : String → ℚ) (cs : List Call) : String → ℚ := cs.foldl Call.book spent

/-- What the calls add up to, resets aside. -/
def charged : List Call → String → ℚ
  | [], _ => 0
  | .onEvent ev :: cs, k => charge ev k + charged cs k
  | .reset _ :: cs, k => charged cs k

/-- What the resets among the calls throw away. -/
def discarded : (String → ℚ) → List Call → String → ℚ
  | _, [], _ => 0
  | spent, .onEvent ev :: cs, k => discarded (Call.book spent (.onEvent ev)) cs k
  | spent, .reset key :: cs, k =>
    (if k = key then spent k else 0) + discarded (Call.book spent (.reset key)) cs k

theorem spendAfter_add_discarded (k : String) : ∀ (cs : List Call) (spent : String → ℚ),
    spendAfter spent cs k + discarded spent cs k = spent k + charged cs k
  | [], spent => rfl
  | .onEvent ev :: cs, spent => by
    have ih := spendAfter_add_discarded k cs (Call.book spent (.onEvent ev))
    simp only [spendAfter, foldl_cons, discarded, charged] at ih ⊢
    rw [ih, Call.book]
    ring
  | .reset key :: cs, spent => by
    have ih := spendAfter_add_discarded k cs (Call.book spent (.reset key))
    simp only [spendAfter, foldl_cons, discarded, charged] at ih ⊢
    by_cases hk : k = key
    · subst hk
      simp only [Call.book, update_self, if_true] at ih ⊢
      linarith
    · simp only [Call.book, update_of_ne hk, if_neg hk] at ih ⊢
      linarith

/-! ## Journal entries -/

/-- The spend a list of entries holds for a key. -/
def total (k : String) (es : List DeltaEntry) : ℚ :=
  (es.map fun e => if e.key = k then e.spentUSD else 0).sum

@[simp] theorem total_nil (k : String) : total k [] = 0 := rfl

@[simp] theorem total_append (k : String) (es es' : List DeltaEntry) :
    total k (es ++ es') = total k es + total k es' := by
  simp [total]

theorem foldl_replayEntry (k : String) : ∀ (es : List DeltaEntry) (spent : String → ℚ),
    es.foldl replayEntry spent k = spent k + total k es
  | [], spent => (add_zero _).symm
  | e :: es, spent => by
    rw [foldl_cons, foldl_replayEntry k es]
    by_cases hk : e.key = k
    · subst hk
      simp [replayEntry, total, add_assoc]
    · simp [replayEntry, total, hk, update_of_ne (Ne.symm hk)]

/-- One entry for each scope, all of the same amount. -/
def EntriesOf (scopes : List String) (cost : ℚ) (es : List DeltaEntry) : Prop :=
  Forall₂ (fun scope e => e.key = scope ∧ e.spentUSD = cost) scopes es

theorem EntriesOf.exists_scope {scopes : List String} {cost : ℚ} {es : List DeltaEntry}
    {e : DeltaEntry} (h : EntriesOf scopes cost es) (he : e ∈ es) :
    ∃ scope ∈ scopes, e.key = scope ∧ e.spentUSD = cost := by
  induction h with
  | nil => cases he
  | cons hhead _ ih =>
    cases he with
    | head => exact ⟨_, mem_cons_self, hhead⟩
    | tail _ he =>
      obtain ⟨scope, hscope, h⟩ := ih he
      exact ⟨scope, mem_cons_of_mem _ hscope, h⟩

theorem total_entriesOf {cost : ℚ} (k : String) : ∀ {scopes : List String} {es : List DeltaEntry},
    EntriesOf scopes cost es → total k es = scopes.count k * cost
  | [], [], _ => by simp
  | scope :: scopes, e :: es, .cons ⟨hkey, hcost⟩ h => by
    have ih := total_entriesOf k h
    by_cases hk : scope = k
    · subst hk
      simp only [total, map_cons, sum_cons, hkey, if_true, hcost, count_cons_self] at ih ⊢
      rw [ih]
      push_cast
      ring
    · simp only [total, map_cons, sum_cons, hkey, if_neg hk, zero_add, count_cons_of_ne hk] at ih ⊢
      exact ih

/-! ## What one event does -/

theorem Plugin.release_spent (limits : Limits) (ev : CallEvent) (p : Plugin) :
    (p.release limits ev).spent = p.spent := by
  have hfold : ∀ (scopes : List String) (p : Plugin),
      (scopes.foldl (Plugin.releaseScope limits ev) p).spent = p.spent := by
    intro scopes
    induction scopes with
    | nil => exact fun _ => rfl
    | cons scope scopes ih =>
      intro p
      rw [foldl_cons, ih, Plugin.releaseScope]
      split
      · rfl
      · dsimp only
        split <;> rfl
  exact hfold _ p

section

variable {β : Type} {c : Codec β DeltaEntry} {limits : Limits} {hasBus : Bool}

/-- The ledgers agree on spend and journal. -/
structure SameBook (w w' : Ledger β) : Prop where
  spent : w'.plugin.spent = w.plugin.spent
  file : w'.file = w.file
  journaling : w'.journaling = w.journaling

variable {ev : CallEvent} {w w' : Ledger β}

theorem warnIfDue_sameBook {scope : String} {newSpent : ℚ} {alreadyWarned : Bool}
    (h : Exec (Ledger.step c limits) (warnIfDue limits hasBus ev scope newSpent alreadyWarned)
      w () w') : SameBook w w' := by
  unfold warnIfDue at h
  split at h
  · obtain ⟨_, rfl⟩ := exec_ret_iff.mp h
    exact ⟨rfl, rfl, rfl⟩
  · split at h
    · obtain ⟨_, w₁, rfl, h⟩ := exec_ask_iff.mp h
      cases hasBus with
      | false =>
        obtain ⟨_, rfl⟩ := exec_ret_iff.mp h
        exact ⟨rfl, rfl, rfl⟩
      | true =>
        obtain ⟨_, w₂, rfl, h⟩ := exec_ask_iff.mp h
        obtain ⟨_, w₃, rfl, h⟩ := exec_ask_iff.mp h
        obtain ⟨_, rfl⟩ := exec_ret_iff.mp h
        exact ⟨rfl, rfl, rfl⟩
    · obtain ⟨_, rfl⟩ := exec_ret_iff.mp h
      exact ⟨rfl, rfl, rfl⟩

/-- The cost is booked at the scopes. -/
structure Booked (c : Codec β DeltaEntry) (scopes : List String) (cost : ℚ) (w w' : Ledger β) :
    Prop where
  spent : ∀ k, w'.plugin.spent k = w.plugin.spent k + scopes.count k * cost
  journaling : w'.journaling = w.journaling
  closed : w.journaling = false → w'.file = w.file
  opened : w.journaling = true → ∃ es, EntriesOf scopes cost es ∧
    w'.file = w.file.map fun text => es.foldl c.append text

theorem SameBook.booked (h : SameBook w w') (cost : ℚ) : Booked c [] cost w w' where
  spent k := by rw [h.spent]; simp
  journaling := h.journaling
  closed _ := h.file
  opened _ := ⟨[], .nil, by rw [h.file]; simp⟩

theorem Booked.trans {scopes scopes' : List String} {cost : ℚ} {w₁ : Ledger β}
    (h : Booked c scopes cost w w₁) (h' : Booked c scopes' cost w₁ w') :
    Booked c (scopes ++ scopes') cost w w' where
  spent k := by
    rw [h'.spent, h.spent, count_append]
    push_cast
    ring
  journaling := h'.journaling.trans h.journaling
  closed hw := (h'.closed (h.journaling.trans hw)).trans (h.closed hw)
  opened hw := by
    obtain ⟨es, hes, hfile⟩ := h.opened hw
    obtain ⟨es', hes', hfile'⟩ := h'.opened (h.journaling.trans hw)
    refine ⟨es ++ es', rel_append hes hes', ?_⟩
    rw [hfile', hfile, Option.map_map]
    simp only [comp_def, foldl_append]

theorem booked_scope {scope : String} {cost : ℚ} {r : ℚ × Bool} {u : Unit} {w₁ w₂ : Ledger β}
    (hspend : Ledger.step c limits w (.budgetSpend scope cost) r w₁)
    (hjournal : Ledger.step c limits w₁ (.budgetJournal scope cost) u w₂) :
    Booked c [scope] cost w w₂ := by
  obtain ⟨rfl, rfl⟩ := hspend
  have hspent : ∀ k, (w.plugin.spend scope cost).2.spent k =
      w.plugin.spent k + [scope].count k * cost := by
    intro k
    by_cases hk : scope = k
    · subst hk
      simp [Plugin.spend]
    · simp [Plugin.spend, update_of_ne (Ne.symm hk), hk]
  cases hj : w.journaling with
  | false =>
    simp only [Ledger.step, hj, Bool.false_eq_true, if_false] at hjournal
    subst hjournal
    exact ⟨hspent, hj.symm, fun _ => rfl, fun h => absurd h (by simp [hj])⟩
  | true =>
    simp only [Ledger.step, hj, if_true] at hjournal
    obtain ⟨now, rfl⟩ := hjournal
    refine ⟨hspent, hj.symm, fun h => absurd h (by simp [hj]), fun _ => ?_⟩
    exact ⟨[⟨scope, cost, now⟩], .cons ⟨rfl, rfl⟩ .nil, rfl⟩

theorem bookScopes_booked : ∀ {scopes : List String} {w w' : Ledger β},
    Exec (Ledger.step c limits) (bookScopes limits hasBus ev scopes) w () w' →
    Booked c scopes ev.cost.totalUSD w w'
  | [], w, w', h => by
    obtain ⟨_, rfl⟩ := exec_ret_iff.mp h
    exact SameBook.booked ⟨rfl, rfl, rfl⟩ _
  | scope :: scopes, w, w', h => by
    rw [bookScopes, Prog.perform_bind] at h
    obtain ⟨⟨newSpent, alreadyWarned⟩, w₁, hspend, h⟩ := exec_ask_iff.mp h
    dsimp only at h
    rw [Prog.perform_bind] at h
    obtain ⟨_, w₂, hjournal, h⟩ := exec_ask_iff.mp h
    obtain ⟨_, w₃, hwarn, h⟩ := exec_bind_iff.mp h
    have hone := booked_scope hspend hjournal
    exact (hone.trans ((warnIfDue_sameBook hwarn).booked _)).trans (bookScopes_booked h)

theorem onEvent_booked (h : Exec (Ledger.step c limits) (onEvent limits hasBus ev) w () w') :
    Booked c (chargedScopes ev) ev.cost.totalUSD w w' := by
  unfold onEvent at h
  unfold chargedScopes
  cases hshadow : ev.shadow.isSome with
  | true =>
    rw [hshadow, if_pos rfl] at h
    obtain ⟨_, rfl⟩ := exec_ret_iff.mp h
    exact SameBook.booked ⟨rfl, rfl, rfl⟩ _
  | false =>
    rw [hshadow, if_neg Bool.false_ne_true, Prog.perform_bind] at h
    obtain ⟨_, w₁, rfl, h⟩ := exec_ask_iff.mp h
    have hrelease : SameBook w { w with plugin := w.plugin.release limits ev } :=
      ⟨Plugin.release_spent limits ev w.plugin, rfl, rfl⟩
    cases hcost : hasCost ev with
    | true =>
      rw [hcost, if_pos rfl] at h
      exact (hrelease.booked _).trans (bookScopes_booked h)
    | false =>
      rw [hcost, if_neg Bool.false_ne_true] at h
      obtain ⟨_, rfl⟩ := exec_ret_iff.mp h
      exact hrelease.booked _

end

/-! ## What a run does -/

section

variable {β : Type} {c : Codec β DeltaEntry} {limits : Limits} {hasBus : Bool}

variable {w w' : Ledger β} {cs : List Call}

theorem Calls.spent (h : Calls c limits hasBus w cs w') :
    w'.plugin.spent = spendAfter w.plugin.spent cs := by
  induction h with
  | nil => rfl
  | @onEvent w w₁ w' ev cs hev _ ih =>
    have hbook : w₁.plugin.spent = Call.book w.plugin.spent (.onEvent ev) :=
      funext (onEvent_booked hev).spent
    rw [ih, hbook]
    rfl
  | reset _ ih => exact ih

theorem Calls.file_of_closed (h : Calls c limits hasBus w cs w') (hw : w.journaling = false) :
    w'.file = w.file := by
  induction h with
  | nil => rfl
  | onEvent hev _ ih =>
    have hbooked := onEvent_booked hev
    rw [ih (hbooked.journaling.trans hw), hbooked.closed hw]
  | reset _ ih => exact ih hw

variable [DecidableEq β]

/-- Its lines can be read back. -/
def Call.Fits (c : Codec β DeltaEntry) : Call → Prop
  | .onEvent ev =>
    ∀ scope ∈ chargedScopes ev, ∀ now, c.Fits maxLine ⟨scope, ev.cost.totalUSD, now⟩
  | .reset _ => True

theorem Calls.journal (h : Calls c limits hasBus w cs w') (hw : w.journaling = true)
    (hfits : ∀ call ∈ cs, call.Fits c) {text : List β} (hfile : w.file = some text)
    (hintact : Intact c.newline maxLine text) :
    ∃ text', w'.file = some text' ∧
      ∀ k, total k (c.entries maxLine text') = total k (c.entries maxLine text) + charged cs k := by
  induction h generalizing text with
  | nil => exact ⟨text, hfile, fun k => (add_zero _).symm⟩
  | @onEvent w w₁ w' ev cs hev _ ih =>
    obtain ⟨hcall, hrest⟩ := forall_mem_cons.mp hfits
    have hbooked := onEvent_booked hev
    obtain ⟨es, hes, hfile₁⟩ := hbooked.opened hw
    have hshort : ∀ e ∈ es, c.Fits maxLine e := by
      intro e he
      obtain ⟨scope, hscope, rfl, hcost⟩ := hes.exists_scope he
      have hfit := hcall e.key hscope e.timestamp
      rwa [← hcost] at hfit
    obtain ⟨hintact₁, hentries⟩ := intact_foldl_append hintact hshort
    rw [hfile] at hfile₁
    obtain ⟨text', hfile', htotal⟩ :=
      ih (hbooked.journaling.trans hw) hrest hfile₁ hintact₁
    refine ⟨text', hfile', fun k => ?_⟩
    rw [htotal, hentries, total_append, total_entriesOf k hes, charged, charge, add_assoc]
  | reset _ ih => exact ih hw (forall_mem_cons.mp hfits).2 hfile hintact

theorem Ledger.new_spent (c : Codec β DeltaEntry) (file : Option (List β)) (k : String) :
    (Ledger.new c file).plugin.spent k =
      match file with
      | none => 0
      | some text => total k (c.entries maxLine text) := by
  cases file with
  | none => rfl
  | some text => exact (foldl_replayEntry k _ _).trans (zero_add _)

/-- A restart restores the spend of every key just when the book is empty, if there was no journal
to begin with, and just when no `Reset` threw spend away, if there was one. -/
theorem restart_spent_iff (file : Option (List β)) {cs : List Call} {w : Ledger β}
    (hrun : Calls c limits hasBus (Ledger.new c file) cs w) (hfits : ∀ call ∈ cs, call.Fits c)
    (hintact : ∀ text ∈ file, Intact c.newline maxLine text) :
    (∀ k, (Ledger.new c w.file).plugin.spent k = w.plugin.spent k) ↔
      match file with
      | none => ∀ k, spendAfter (fun _ => 0) cs k = 0
      | some _ => ∀ k, discarded (Ledger.new c file).plugin.spent cs k = 0 := by
  cases file with
  | none =>
    have hfile : w.file = none := hrun.file_of_closed rfl
    rw [hrun.spent, hfile]
    exact forall_congr' fun k => eq_comm
  | some text =>
    obtain ⟨text', hfile, htotal⟩ := hrun.journal rfl hfits rfl (hintact text rfl)
    rw [hrun.spent, hfile]
    refine forall_congr' fun k => ?_
    have hbook := spendAfter_add_discarded k cs (Ledger.new c (some text)).plugin.spent
    rw [Ledger.new_spent c (some text) k] at hbook
    rw [Ledger.new_spent c (some text') k]
    simp only [htotal] at hbook ⊢
    constructor
    · intro h
      linarith
    · intro h
      linarith

end

/-! ## One call, with and without a journal -/

/-- A call of tenant `acme` that cost a dollar. -/
def acmeCall : CallEvent where
  tenantID := "acme"
  cost := { totalUSD := 1 }

def acmeLedger (file : Option (List (Bool ⊕ DeltaEntry))) : Ledger (Bool ⊕ DeltaEntry) where
  plugin := { spent := update (fun _ => 0) "acme" (0 + 1) }
  file := file.map fun text => (symbols DeltaEntry).append text ⟨"acme", 1, 0⟩
  journaling := file.isSome

theorem acme_run_without_journal :
    Calls (symbols DeltaEntry) (fun _ => none) false
      (Ledger.new (symbols DeltaEntry) none) [.onEvent acmeCall] (acmeLedger none) :=
  .onEvent (.ask (r := ()) rfl (.ask ⟨rfl, rfl⟩ (.ask (r := ()) rfl .ret))) .nil

theorem acme_run_with_journal :
    Calls (symbols DeltaEntry) (fun _ => none) false
      (Ledger.new (symbols DeltaEntry) (some [])) [.onEvent acmeCall]
      (acmeLedger (some [])) :=
  .onEvent (.ask (r := ()) rfl (.ask ⟨rfl, rfl⟩ (.ask (r := ()) ⟨0, rfl⟩ .ret))) .nil

/-- With an empty journal file in the directory, the dollar is still there after a restart. -/
theorem restart_keeps_acme_spend :
    (Ledger.new (symbols DeltaEntry) (acmeLedger (some [])).file).plugin.spent "acme" =
      (acmeLedger (some [])).plugin.spent "acme" :=
  (restart_spent_iff (some []) acme_run_with_journal
    (by
      intro call hcall
      rw [mem_singleton.mp hcall]
      intro scope _ now
      exact symbols_fits (by decide) _)
    (by
      intro text htext
      cases htext
      exact intact_nil _ _)).mpr (fun _ => rfl) "acme"

/-- In an empty directory the dollar is never written, and a restart forgets it. -/
theorem restart_forgets_acme_spend :
    Calls (symbols DeltaEntry) (fun _ => none) false
      (Ledger.new (symbols DeltaEntry) none) [.onEvent acmeCall] (acmeLedger none) ∧
    (acmeLedger none).plugin.spent "acme" = 1 ∧
    (Ledger.new (symbols DeltaEntry) (acmeLedger none).file).plugin.spent "acme" = 0 :=
  ⟨acme_run_without_journal, by simp [acmeLedger], rfl⟩

end Ixr.Budget
