import IxrGateway.Memory.Restart

/-!
# Concurrent calls on the memory store

`Save` has two critical sections: it updates memory under one lock and appends
its line to the journal under another.  `Delete` and `compactNow` hold the first
lock to their end, also while they rewrite the journal under the second.  So
lines may be appended while a rewrite waits, and a rewrite may fall between the
two halves of a `Save`.

In that case the journal goes wrong.  The rewritten journal has the entry
already and the append adds it again, or the entry was just deleted and the
append brings it back.  If no rewrite falls between the halves of a `Save`
whose entry it writes or deletes, the journal stays exact (`journal_exact`).

Entries carry the number of the `Save` that stored them, so that equal entries
can be told apart.  The store does not look at the number (`step_erased`).
-/

namespace Ixr.Memory

open Retention List Function

/-- An entry with the number of its `Save`. -/
structure Saved where
  entry : Entry
  save : Nat
deriving Repr, DecidableEq

/-- `pruneLocked`, on numbered entries. -/
def pruneSaved (cfg : Config) (now : Int) (xs : List Saved) : List Saved :=
  keep (fun t x => live cfg t x.entry) cfg.limit now xs

/-- A store, its journal and the calls on it. -/
structure Shared where
  memory : String → List Saved
  journal : List Saved
  /-- The entries of the `Save`s between their two halves. -/
  pending : List Saved
  /-- What the `Delete` or `compactNow` that holds the lock of memory will write. -/
  rewriting : Option (List Saved)
  deleted : List Saved
  saves : Nat

/-- A critical section, or the part of a longer one under the lock of the file. -/
inductive Act where
  /-- The first half of `Save`. -/
  | beginSave (e : Entry) (stamp now : Int)
  | endSave (x : Saved)
  /-- `Recent` or `All`. -/
  | read (userKey : String) (now : Int)
  /-- `Delete` up to the rewrite. -/
  | beginDelete (userKey entryID : String) (order : List String)
  /-- `compactNow` up to the rewrite. -/
  | beginCompact (times : String → Int) (order : List String)
  /-- `rewriteJournalLocked`, and the lock of memory is released. -/
  | endRewrite

/-- What a step does, if it can be made. -/
def Shared.step (cfg : Config) (st : Shared) : Act → Option Shared
  | .beginSave e stamp now =>
    if st.rewriting.isSome then none
    else
      let x : Saved := ⟨stamped cfg e stamp, st.saves⟩
      some { st with
        memory := update st.memory x.entry.userKey
          (pruneSaved cfg now (st.memory x.entry.userKey ++ [x]))
        pending := x :: st.pending
        saves := st.saves + 1 }
  | .endSave x =>
    if x ∈ st.pending then
      some { st with pending := st.pending.erase x, journal := st.journal ++ [x] }
    else none
  | .read userKey now =>
    if st.rewriting.isSome then none
    else
      some { st with
        memory := update st.memory userKey (pruneSaved cfg now (st.memory userKey)) }
  | .beginDelete userKey entryID order =>
    if st.rewriting.isSome then none
    else
      match (st.memory userKey).find? fun x => x.entry.id = entryID with
      | none => some st
      | some x =>
        let memory := update st.memory userKey
          ((st.memory userKey).eraseP fun x => x.entry.id = entryID)
        some { st with
          memory := memory
          rewriting := some (order.flatMap memory)
          deleted := x :: st.deleted }
  | .beginCompact times order =>
    if st.rewriting.isSome then none
    else
      let memory := fun userKey => pruneSaved cfg (times userKey) (st.memory userKey)
      some { st with memory := memory, rewriting := some (order.flatMap memory) }
  | .endRewrite =>
    match st.rewriting with
    | none => none
    | some live => some { st with journal := live, rewriting := none }

/-- What a step that was made did. -/
inductive Shared.Moves (cfg : Config) (st : Shared) : Act → Shared → Prop where
  | beginSave {e : Entry} {stamp now : Int} {x : Saved} :
      st.rewriting = none → x = ⟨stamped cfg e stamp, st.saves⟩ →
      Moves cfg st (.beginSave e stamp now) { st with
        memory := update st.memory x.entry.userKey
          (pruneSaved cfg now (st.memory x.entry.userKey ++ [x]))
        pending := x :: st.pending
        saves := st.saves + 1 }
  | endSave {x : Saved} :
      x ∈ st.pending →
      Moves cfg st (.endSave x)
        { st with pending := st.pending.erase x, journal := st.journal ++ [x] }
  | read {userKey : String} {now : Int} :
      st.rewriting = none →
      Moves cfg st (.read userKey now) { st with
        memory := update st.memory userKey (pruneSaved cfg now (st.memory userKey)) }
  | notFound {userKey entryID : String} {order : List String} :
      st.rewriting = none → (∀ x ∈ st.memory userKey, x.entry.id ≠ entryID) →
      Moves cfg st (.beginDelete userKey entryID order) st
  | beginDelete {userKey entryID : String} {order : List String} {x : Saved}
      {before after : List Saved} :
      st.rewriting = none → st.memory userKey = before ++ x :: after → x.entry.id = entryID →
      (∀ x ∈ before, x.entry.id ≠ entryID) →
      Moves cfg st (.beginDelete userKey entryID order) { st with
        memory := update st.memory userKey (before ++ after)
        rewriting := some (order.flatMap (update st.memory userKey (before ++ after)))
        deleted := x :: st.deleted }
  | beginCompact {times : String → Int} {order : List String} :
      st.rewriting = none →
      Moves cfg st (.beginCompact times order) { st with
        memory := fun userKey => pruneSaved cfg (times userKey) (st.memory userKey)
        rewriting := some (order.flatMap fun userKey =>
          pruneSaved cfg (times userKey) (st.memory userKey)) }
  | endRewrite {live : List Saved} :
      st.rewriting = some live →
      Moves cfg st .endRewrite { st with journal := live, rewriting := none }

theorem eraseP_split {α : Type} {p : α → Bool} {x : α} {before after : List α} (hx : p x = true)
    (hbefore : ∀ y ∈ before, ¬p y = true) : (before ++ x :: after).eraseP p = before ++ after := by
  rw [eraseP_append_right _ hbefore, eraseP_cons_of_pos hx]

variable {cfg : Config} {st st' : Shared} {a : Act} {xs : List Saved} {memory : String → List Saved}
  {x : Saved} {order : List String}

theorem Shared.moves_of_step (h : st.step cfg a = some st') : st.Moves cfg a st' := by
  cases a with
  | beginSave e stamp now =>
    simp only [Shared.step, Option.isSome_iff_ne_none, ite_not] at h
    split at h
    · next hfree =>
      cases h
      exact .beginSave hfree rfl
    · cases h
  | endSave x =>
    simp only [Shared.step] at h
    split at h
    · next hmem =>
      cases h
      exact .endSave hmem
    · cases h
  | read userKey now =>
    simp only [Shared.step, Option.isSome_iff_ne_none, ite_not] at h
    split at h
    · next hfree =>
      cases h
      exact .read hfree
    · cases h
  | beginDelete userKey entryID order =>
    simp only [Shared.step, Option.isSome_iff_ne_none, ite_not] at h
    split at h
    · next hfree =>
      cases hfind : (st.memory userKey).find? fun x => decide (x.entry.id = entryID) with
      | none =>
        rw [hfind] at h
        cases h
        refine .notFound hfree fun x hx => ?_
        simpa using find?_eq_none.mp hfind x hx
      | some x =>
        rw [hfind] at h
        cases h
        obtain ⟨hid, before, after, hsplit, hbefore⟩ := find?_eq_some_iff_append.mp hfind
        have hne : ∀ y ∈ before, y.entry.id ≠ entryID := fun y hy => by
          simpa using hbefore y hy
        have herase : ((st.memory userKey).eraseP fun x => decide (x.entry.id = entryID)) =
            before ++ after := by
          rw [hsplit]
          exact eraseP_split hid fun y hy => by simpa using hne y hy
        rw [herase]
        exact .beginDelete hfree hsplit (of_decide_eq_true hid) hne
    · cases h
  | beginCompact times order =>
    simp only [Shared.step, Option.isSome_iff_ne_none, ite_not] at h
    split at h
    · next hfree =>
      cases h
      exact .beginCompact hfree
    · cases h
  | endRewrite =>
    simp only [Shared.step] at h
    split at h
    · cases h
    · next live hlive =>
      cases h
      exact .endRewrite hlive

/-! ## The numbers do not matter -/

/-- The map of the store. -/
def Shared.erased (st : Shared) : Entries := fun key => (st.memory key).map Saved.entry

theorem map_pruneSaved (cfg : Config) (now : Int) (xs : List Saved) :
    (pruneSaved cfg now xs).map Saved.entry = pruneLocked cfg now (xs.map Saved.entry) := by
  rw [pruneLocked_eq]
  exact map_keep cfg.limit Saved.entry (live cfg) now xs

/-- What the call does to the map. -/
def Act.onEntries (cfg : Config) (s : Entries) : Act → Entries
  | .beginSave e stamp now => s.save cfg (stamped cfg e stamp) now
  | .endSave _ => s
  | .read userKey now => s.prune cfg userKey now
  | .beginDelete userKey entryID _ => (s.delete userKey entryID).getD s
  | .beginCompact times _ => s.compact cfg times
  | .endRewrite => s

theorem erased_update {key : String} (h : st'.memory = update st.memory key xs) :
    st'.erased = update st.erased key (xs.map Saved.entry) := by
  funext k
  rw [Shared.erased, h]
  exact apply_update (fun _ => map Saved.entry) st.memory key xs k

/-- Without the numbers, a step does to the map what its call does. -/
theorem step_erased (h : st.step cfg a = some st') : st'.erased = a.onEntries cfg st.erased := by
  cases Shared.moves_of_step h with
  | beginSave _ hx =>
    rw [erased_update rfl, map_pruneSaved, map_append, hx]
    rfl
  | endSave _ => rfl
  | read _ =>
    rw [erased_update rfl, map_pruneSaved]
    rfl
  | @notFound userKey entryID _ _ hnone =>
    have hany : ((st.erased userKey).any fun e => decide (e.id = entryID)) = false := by
      rw [Shared.erased, any_map, any_eq_false]
      intro x hx
      simpa using hnone x hx
    simp only [Act.onEntries, Entries.delete, hany, Bool.false_eq_true, if_false, Option.getD_none]
  | @beginDelete userKey entryID _ x before after _ hsplit hid hbefore =>
    have herased : st.erased userKey =
        before.map Saved.entry ++ x.entry :: after.map Saved.entry := by
      rw [Shared.erased, hsplit, map_append, map_cons]
    have hany : ((st.erased userKey).any fun e => decide (e.id = entryID)) = true := by
      rw [herased, any_append, any_cons, decide_eq_true hid, Bool.true_or, Bool.or_true]
    have herase : ((st.erased userKey).eraseP fun e => decide (e.id = entryID)) =
        before.map Saved.entry ++ after.map Saved.entry := by
      rw [herased]
      refine eraseP_split (decide_eq_true hid) fun e he => ?_
      obtain ⟨y, hy, rfl⟩ := mem_map.mp he
      simpa using hbefore y hy
    simp only [Act.onEntries, Entries.delete, hany, if_true, Option.getD_some, herase]
    rw [erased_update rfl, map_append]
  | beginCompact _ =>
    funext key
    exact map_pruneSaved cfg _ (st.memory key)
  | endRewrite _ => rfl

/-! ## The journal stays exact -/

/-- The order in which a step ranges over the map is one that the map has. -/
def Shared.Orders (st' : Shared) : Act → Prop
  | .beginDelete _ _ order => Ranges order st'.memory
  | .beginCompact _ order => Ranges order st'.memory
  | _ => True

/-- A rewrite does not fall between the halves of a `Save` whose entry it writes or whose entry was
deleted. -/
def Shared.Clear (st : Shared) : Act → Prop
  | .endRewrite =>
    ∀ live, st.rewriting = some live → ∀ x ∈ st.pending, x ∉ live ∧ x ∉ st.deleted
  | _ => True

/-- Memory and journal, between calls and in the middle of them. -/
structure Kept (st : Shared) : Prop where
  keyed : ∀ key, ∀ x ∈ st.memory key, x.entry.userKey = key
  memory_nodup : ∀ key, (st.memory key).Nodup
  journal_nodup : st.journal.Nodup
  pending_nodup : st.pending.Nodup
  /-- What is in memory is in the journal or on its way there. -/
  held : ∀ key, ∀ x ∈ st.memory key, x ∈ st.journal ∨ x ∈ st.pending
  /-- What is on its way is not there yet. -/
  coming : ∀ x ∈ st.pending, x ∉ st.journal
  /-- What was deleted is not in memory. -/
  gone : ∀ x ∈ st.deleted, ∀ key, x ∉ st.memory key
  /-- Nor is it in the journal or on its way there, once the journal has been rewritten. -/
  erased : st.rewriting = none → ∀ x ∈ st.deleted, x ∉ st.journal ∧ x ∉ st.pending
  /-- A rewrite writes what is in memory. -/
  rewrite : ∀ live, st.rewriting = some live →
    live.Nodup ∧ ∀ x, x ∈ live ↔ ∃ key, x ∈ st.memory key
  /-- Numbers are not used twice. -/
  numbered : ∀ x, x ∈ st.journal ∨ x ∈ st.pending ∨ x ∈ st.deleted → x.save < st.saves

theorem pruneSaved_sublist (cfg : Config) (now : Int) (xs : List Saved) :
    (pruneSaved cfg now xs).Sublist xs := keep_sublist _ _ now xs

theorem update_sublist {userKey : String} (h : xs.Sublist (memory userKey)) (key : String) :
    (update memory userKey xs key).Sublist (memory key) :=
  (forall_update_iff memory fun key xs => xs.Sublist (memory key)).mpr
    ⟨h, fun key _ => Sublist.refl (memory key)⟩ key

theorem nodup_append_one (h : xs.Nodup) (hx : x ∉ xs) : (xs ++ [x]).Nodup := by
  rw [← concat_eq_append]
  exact Nodup.concat hx h

/-- Memory may lose entries at any time between rewrites. -/
theorem Kept.shrink (h : Kept st) (hfree : st.rewriting = none)
    (hsub : ∀ key, (memory key).Sublist (st.memory key)) :
    Kept { st with memory := memory } :=
  { h with
    keyed key x hx := h.keyed key x ((hsub key).mem hx)
    memory_nodup key := (h.memory_nodup key).sublist (hsub key)
    held key x hx := h.held key x ((hsub key).mem hx)
    gone x hx key hmem := h.gone x hx key ((hsub key).mem hmem)
    rewrite live hlive := by
      rw [hfree] at hlive
      cases hlive }

theorem flatMap_nodup (horder : Ranges order memory)
    (hkeyed : ∀ key, ∀ x ∈ memory key, x.entry.userKey = key) (hnodup : ∀ key, (memory key).Nodup) :
    (order.flatMap memory).Nodup := by
  refine nodup_flatMap.mpr ⟨fun key _ => hnodup key, horder.nodup.imp fun hne => ?_⟩
  rw [onFun, disjoint_left]
  intro x hx hx'
  exact hne ((hkeyed _ x hx).symm.trans (hkeyed _ x hx'))

theorem mem_flatMap_ranges (horder : Ranges order memory) (x : Saved) :
    x ∈ order.flatMap memory ↔ ∃ key, x ∈ memory key := by
  rw [mem_flatMap]
  constructor
  · rintro ⟨key, -, hx⟩
    exact ⟨key, hx⟩
  · rintro ⟨key, hx⟩
    exact ⟨key, horder.mem key (ne_nil_of_mem hx), hx⟩

theorem Kept.announce (h : Kept st) (horder : Ranges order st.memory) {deleted : List Saved}
    (hgone : ∀ x ∈ deleted, ∀ key, x ∉ st.memory key)
    (hnumbered : ∀ x ∈ deleted, x.save < st.saves) :
    Kept { st with rewriting := some (order.flatMap st.memory), deleted := deleted } :=
  { h with
    gone := hgone
    erased hnone := by cases hnone
    rewrite live hlive := by
      cases hlive
      exact ⟨flatMap_nodup horder h.keyed h.memory_nodup, mem_flatMap_ranges horder⟩
    numbered x hx := by
      rcases hx with hx | hx | hx
      · exact h.numbered x (.inl hx)
      · exact h.numbered x (.inr (.inl hx))
      · exact hnumbered x hx }

theorem Kept.save_lt (h : Kept st) {key : String} (hx : x ∈ st.memory key) : x.save < st.saves :=
  h.numbered x ((h.held key x hx).imp_right Or.inl)

theorem Kept.fresh (h : Kept st) (hx : x.save = st.saves) :
    x ∉ st.journal ∧ x ∉ st.pending ∧ x ∉ st.deleted ∧ ∀ key, x ∉ st.memory key := by
  have hnew : ¬ x.save < st.saves := hx.not_lt
  refine ⟨?_, ?_, ?_, ?_⟩
  · exact fun hmem => hnew (h.numbered x (.inl hmem))
  · exact fun hmem => hnew (h.numbered x (.inr (.inl hmem)))
  · exact fun hmem => hnew (h.numbered x (.inr (.inr hmem)))
  · exact fun key hmem => hnew (h.save_lt hmem)

theorem mem_of_mem_update (hsub : xs.Sublist (memory x.entry.userKey ++ [x])) (key : String) :
    ∀ y ∈ update memory x.entry.userKey xs key,
      y ∈ memory key ∨ (key = x.entry.userKey ∧ y = x) := by
  refine (forall_update_iff memory fun key ys =>
    ∀ y ∈ ys, y ∈ memory key ∨ (key = x.entry.userKey ∧ y = x)).mpr ⟨?_, ?_⟩ key
  · intro y hy
    exact (mem_append.mp (hsub.mem hy)).imp_right fun hy => ⟨rfl, mem_singleton.mp hy⟩
  · exact fun key _ y hy => Or.inl hy

theorem Kept.beginSave (h : Kept st) (hfree : st.rewriting = none) (hx : x.save = st.saves)
    (hsub : xs.Sublist (st.memory x.entry.userKey ++ [x])) :
    Kept { st with
      memory := update st.memory x.entry.userKey xs
      pending := x :: st.pending
      saves := st.saves + 1 } := by
  obtain ⟨hjournal, hpending, hdeleted, hmemory⟩ := h.fresh hx
  have hmem := mem_of_mem_update hsub
  exact
    { h with
      keyed key y hy := by
        rcases hmem key y hy with hold | ⟨hk, rfl⟩
        · exact h.keyed key y hold
        · exact hk.symm
      memory_nodup := by
        refine (forall_update_iff st.memory fun _ ys => ys.Nodup).mpr
          ⟨?_, fun key _ => h.memory_nodup key⟩
        exact (nodup_append_one (h.memory_nodup _) (hmemory _)).sublist hsub
      pending_nodup := nodup_cons.mpr ⟨hpending, h.pending_nodup⟩
      held key y hy := by
        rcases hmem key y hy with hold | ⟨-, rfl⟩
        · exact (h.held key y hold).imp_right (mem_cons_of_mem x)
        · exact Or.inr mem_cons_self
      coming y hy := by
        rcases mem_cons.mp hy with rfl | hy
        · exact hjournal
        · exact h.coming y hy
      gone y hy key hmem' := by
        rcases hmem key y hmem' with hold | ⟨-, rfl⟩
        · exact h.gone y hy key hold
        · exact hdeleted hy
      erased hnone y hy := by
        obtain ⟨hj, hp⟩ := h.erased hnone y hy
        refine ⟨hj, fun hmem' => ?_⟩
        rcases mem_cons.mp hmem' with rfl | hmem'
        · exact hdeleted hy
        · exact hp hmem'
      rewrite live hlive := by
        rw [hfree] at hlive
        cases hlive
      numbered y hy := by
        show y.save < st.saves + 1
        rcases hy with hy | hy | hy
        · exact Nat.lt_succ_of_lt (h.numbered y (.inl hy))
        · rcases mem_cons.mp hy with rfl | hy
          · omega
          · exact Nat.lt_succ_of_lt (h.numbered y (.inr (.inl hy)))
        · exact Nat.lt_succ_of_lt (h.numbered y (.inr (.inr hy))) }

theorem Kept.endSave (h : Kept st) (hx : x ∈ st.pending) :
    Kept { st with pending := st.pending.erase x, journal := st.journal ++ [x] } := by
  have hmem : ∀ y, y ∈ st.journal ++ [x] ↔ y ∈ st.journal ∨ y = x := by
    intro y
    rw [mem_append, mem_singleton]
  have hpend : ∀ y, y ∈ st.pending.erase x ↔ y ≠ x ∧ y ∈ st.pending := fun y =>
    h.pending_nodup.mem_erase_iff
  exact
    { h with
      journal_nodup := nodup_append_one h.journal_nodup (h.coming x hx)
      pending_nodup := h.pending_nodup.erase x
      held key y hy := by
        show y ∈ st.journal ++ [x] ∨ y ∈ st.pending.erase x
        rw [hmem, hpend]
        rcases h.held key y hy with hj | hp
        · exact Or.inl (.inl hj)
        · by_cases hyx : y = x
          · exact Or.inl (Or.inr hyx)
          · exact Or.inr ⟨hyx, hp⟩
      coming y hy hj := by
        obtain ⟨hne, hp⟩ := (hpend y).mp hy
        rcases (hmem y).mp hj with hj | rfl
        · exact h.coming y hp hj
        · exact hne rfl
      erased hnone y hy := by
        obtain ⟨hj, hp⟩ := h.erased hnone y hy
        refine ⟨fun hmem' => ?_, fun hmem' => hp ((hpend y).mp hmem').2⟩
        rcases (hmem y).mp hmem' with hj' | rfl
        · exact hj hj'
        · exact hp hx
      numbered y hy := by
        rcases hy with hy | hy | hy
        · rcases (hmem y).mp hy with hj | rfl
          · exact h.numbered y (.inl hj)
          · exact h.numbered y (.inr (.inl hx))
        · exact h.numbered y (.inr (.inl ((hpend y).mp hy).2))
        · exact h.numbered y (.inr (.inr hy)) }

theorem Kept.endRewrite (h : Kept st) {live : List Saved} (hlive : st.rewriting = some live)
    (hclear : st.Clear .endRewrite) : Kept { st with journal := live, rewriting := none } := by
  obtain ⟨hnodup, hmem⟩ := h.rewrite live hlive
  exact
    { h with
      journal_nodup := hnodup
      held := fun key x hx => Or.inl ((hmem x).mpr ⟨key, hx⟩)
      coming := fun x hx => (hclear live hlive x hx).1
      erased _ x hx := by
        refine ⟨fun hin => ?_, fun hp => (hclear live hlive x hp).2 hx⟩
        obtain ⟨key, hkey⟩ := (hmem x).mp hin
        exact h.gone x hx key hkey
      rewrite live' hlive' := by
        cases hlive'
      numbered x hx := by
        rcases hx with hx | hx
        · obtain ⟨key, hkey⟩ := (hmem x).mp hx
          exact h.save_lt hkey
        · exact h.numbered x (Or.inr hx) }

theorem Kept.step (h : Kept st) (hstep : st.step cfg a = some st') (horder : st'.Orders a)
    (hclear : st.Clear a) : Kept st' := by
  cases Shared.moves_of_step hstep with
  | beginSave hfree hx =>
    exact h.beginSave hfree (congrArg Saved.save hx) (pruneSaved_sublist cfg _ _)
  | endSave hx => exact h.endSave hx
  | @read userKey now hfree =>
    exact h.shrink hfree (update_sublist (pruneSaved_sublist cfg now (st.memory userKey)))
  | notFound _ _ => exact h
  | @beginDelete userKey _ order x before after hfree hsplit _ _ =>
    have hshrunk : Kept { st with
        memory := update st.memory userKey (before ++ after) } := by
      refine h.shrink hfree (update_sublist ?_)
      rw [hsplit]
      exact (Sublist.refl before).append (sublist_cons_self x after)
    have hx : x ∈ st.memory userKey := by
      rw [hsplit]
      exact mem_append_right before mem_cons_self
    refine hshrunk.announce horder ?_ ?_
    · intro y hy key hmem
      rcases mem_cons.mp hy with rfl | hy
      · -- an entry occurs once in memory
        obtain rfl : userKey = key :=
          (h.keyed userKey y hx).symm.trans (hshrunk.keyed key y hmem)
        have hnodup := h.memory_nodup userKey
        rw [hsplit] at hnodup
        dsimp only at hmem
        rw [update_self] at hmem
        have hcons := nodup_middle.mp hnodup
        exact (nodup_cons.mp hcons).1 hmem
      · exact hshrunk.gone y hy key hmem
    · intro y hy
      rcases mem_cons.mp hy with rfl | hy
      · exact h.save_lt hx
      · exact h.numbered y (.inr (.inr hy))
  | beginCompact hfree =>
    exact (h.shrink hfree fun key => pruneSaved_sublist cfg _ _).announce horder
      (h.shrink hfree fun key => pruneSaved_sublist cfg _ _).gone
      fun x hx => h.numbered x (.inr (.inr hx))
  | endRewrite hlive => exact h.endRewrite hlive hclear

/-! ## A run -/

/-- The stores reached by steps that meet a condition, from one with no call under way and nothing
deleted. -/
inductive Shared.Reached (cfg : Config) (allowed : Shared → Act → Prop) : Shared → Prop where
  | start {st : Shared} :
      Kept st → st.pending = [] → st.rewriting = none → st.deleted = [] → Reached cfg allowed st
  | step {st st' : Shared} {a : Act} :
      Reached cfg allowed st → allowed st a → st.step cfg a = some st' → st'.Orders a →
      Reached cfg allowed st'

theorem Shared.Reached.kept (h : Reached cfg Shared.Clear st) : Kept st := by
  induction h with
  | start hkept _ _ _ => exact hkept
  | step _ hclear hstep horder ih => exact ih.step hstep horder hclear

/-- What a new store loads from the journal for a user. -/
def Shared.reloaded (cfg : Config) (st : Shared) (now : Int) (key : String) : List Saved :=
  pruneSaved cfg now (st.journal.filter fun x => x.entry.userKey = key)

theorem map_reloaded (cfg : Config) (st : Shared) (now : Int) (key : String) :
    (st.reloaded cfg now key).map Saved.entry =
      loaded cfg (st.journal.map Saved.entry) now key := by
  rw [Shared.reloaded, map_pruneSaved, loaded_eq, ofUser, filter_map]
  rfl

/-- In every run in which no rewrite falls between the halves of a `Save` whose entry it writes or
whose entry was deleted: when all calls have finished, the journal has no deleted entry and every
entry in memory exactly once, and a restart neither revives nor doubles an entry. -/
theorem journal_exact {cfg : Config} {st : Shared} (h : Shared.Reached cfg Shared.Clear st)
    (hpending : st.pending = []) (hfree : st.rewriting = none) :
    (∀ x ∈ st.deleted, x ∉ st.journal) ∧
    (∀ key, ∀ x ∈ st.memory key, st.journal.count x = 1) ∧
    ∀ now key, (st.reloaded cfg now key).Nodup ∧ ∀ x ∈ st.deleted, x ∉ st.reloaded cfg now key := by
  have hkept := h.kept
  have hsub : ∀ now key, (st.reloaded cfg now key).Sublist st.journal := fun now key =>
    (pruneSaved_sublist cfg now _).trans filter_sublist
  refine ⟨fun x hx => (hkept.erased hfree x hx).1, fun key x hx => ?_, fun now key => ⟨?_, ?_⟩⟩
  · rcases hkept.held key x hx with hj | hp
    · exact count_eq_one_of_mem hkept.journal_nodup hj
    · rw [hpending] at hp
      exact absurd hp not_mem_nil
  · exact hkept.journal_nodup.sublist (hsub now key)
  · exact fun x hx hmem => (hkept.erased hfree x hx).1 ((hsub now key).mem hmem)

def noFacts : Shared where
  memory _ := []
  journal := []
  pending := []
  rewriting := none
  deleted := []
  saves := 0

theorem reached_noFacts (cfg : Config) (allowed : Shared → Act → Prop) :
    Shared.Reached cfg allowed noFacts := by
  refine .start ?_ rfl rfl rfl
  constructor <;> simp [noFacts]

/-- The name as the first `Save` stores it. -/
def firstSaved : Saved := ⟨{ nameFact with createdAt := 1 }, 0⟩

/-- The first half of that `Save` is done. -/
def halfSaved : Shared :=
  { noFacts with
    memory := update noFacts.memory "acme:u1" [firstSaved]
    pending := [firstSaved]
    saves := 1 }

theorem step_noFacts : noFacts.step anHour (.beginSave nameFact 1 1) = some halfSaved := rfl

/-- A `Delete` of the name is about to rewrite the journal. -/
def Shared.forgetting (st : Shared) : Shared :=
  { st with
    memory := update st.memory "acme:u1" []
    rewriting := some []
    deleted := [firstSaved] }

theorem ranges_forgetting : Ranges [] (halfSaved.forgetting).memory := by
  refine ⟨nodup_nil, fun key hne => absurd ?_ hne⟩
  simp only [Shared.forgetting, halfSaved, update_idem]
  by_cases hk : key = "acme:u1"
  · rw [hk, update_self]
  · rw [update_of_ne hk]
    rfl

/-- A `Delete` between the halves of a `Save`: when both have finished, the deleted fact is in the
journal and a restart loads it. -/
theorem deleted_fact_revived :
    ∃ st, Shared.Reached anHour (fun _ _ => True) st ∧ st.pending = [] ∧ st.rewriting = none ∧
      firstSaved ∈ st.deleted ∧ st.memory "acme:u1" = [] ∧ st.journal = [firstSaved] ∧
      st.reloaded anHour 60 "acme:u1" = [firstSaved] := by
  have hhalf := (reached_noFacts anHour fun _ _ => True).step trivial step_noFacts trivial
  have hdelete : halfSaved.step anHour (.beginDelete "acme:u1" "m1" []) =
      some halfSaved.forgetting := rfl
  have hforget := hhalf.step trivial hdelete ranges_forgetting
  have hrewrite := hforget.step (a := .endRewrite) trivial rfl trivial
  have hend := hrewrite.step (a := .endSave firstSaved) trivial rfl trivial
  exact ⟨_, hend, rfl, rfl, mem_singleton_self _, rfl, rfl, by decide⟩

/-- Both halves of the `Save` are done. -/
def wholeSaved : Shared := { halfSaved with pending := [], journal := [firstSaved] }

/-- A `Delete` after the `Save`: the fact is gone from the journal too. -/
theorem deleted_fact_gone :
    ∃ st, Shared.Reached anHour Shared.Clear st ∧ firstSaved ∈ st.deleted ∧
      firstSaved ∉ st.journal := by
  have hhalf := (reached_noFacts anHour Shared.Clear).step (by exact trivial) step_noFacts trivial
  have hend : halfSaved.step anHour (.endSave firstSaved) = some wholeSaved := rfl
  have hwhole := hhalf.step (by exact trivial) hend trivial
  have hdelete : wholeSaved.step anHour (.beginDelete "acme:u1" "m1" []) =
      some wholeSaved.forgetting := rfl
  have hforget := hwhole.step (by exact trivial) hdelete ranges_forgetting
  have hrewrite := hforget.step (a := .endRewrite)
    (fun live _ x hx => absurd hx not_mem_nil) rfl trivial
  refine ⟨_, hrewrite, mem_singleton_self _, ?_⟩
  exact (journal_exact hrewrite rfl rfl).1 firstSaved (mem_singleton_self _)

end Ixr.Memory
