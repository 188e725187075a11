import IxrGateway.Cache.Persistent
import IxrGateway.Eviction

/-!
# Restarting the semantic cache

Memory is a list that makes room by evicting: an expired entry goes first, and
else the oldest.  The journal keeps all entries, and the replay applies the size
limit to those that have not expired.

An entry in memory has pushed out no live entry after it, so memory holds all
live entries after it as well, and there are not more of them than the limit
allows.  The replay keeps the last live entries up to the same limit, and so the
entry is among them (`semantic_cache_durable`).
-/

namespace Ixr.Cache

open LineJournal List Eviction MemorySemanticBackend PersistentSemanticBackend Codec

variable {β ρ : Type}

/-! ## Memory as an evicting list -/

/-- How many entries are kept, if bounded. -/
def limitOf (maxSize : Int) : Option Nat := if 0 < maxSize then some maxSize.toNat else none

theorem fits_nil (maxSize : Int) : Fits (limitOf maxSize) ([] : List (VectorEntry ρ)) := by
  unfold limitOf
  refine ⟨fun n hn => ?_, fun n _ => Nat.zero_le n⟩
  split at hn
  · cases hn
    omega
  · cases hn

theorem MemorySemanticBackend.store_entries (b : MemorySemanticBackend ρ) (vec : Vec) (resp : ρ)
    (ttl now now' : Int) :
    (b.store vec resp ttl now now').entries =
      push (limitOf b.maxSize) (fun e => expired e.expiresAt now) b.entries
        ⟨vec, resp, expiry ttl now'⟩ := by
  have hfull : full (limitOf b.maxSize) b.entries =
      decide (0 < b.maxSize ∧ b.maxSize ≤ b.entries.length) := by
    unfold full limitOf
    by_cases hpos : 0 < b.maxSize
    · simp only [hpos, if_true, Option.any_some, true_and]
      exact decide_eq_decide.mpr (by omega)
    · simp [hpos]
  rw [push, hfull]
  simp only [store, decide_eq_true_eq]
  rfl

/-! ## Store calls -/

/-- A call of `Store`, with all clock readings taken at one time. -/
structure StoreCall (ρ : Type) where
  vec : Vec
  resp : ρ
  ttl : Int
  time : Int
deriving Repr, DecidableEq

/-- The entry in memory. -/
def StoreCall.entry (call : StoreCall ρ) : VectorEntry ρ :=
  ⟨call.vec, call.resp, expiry call.ttl call.time⟩

/-- The line in the journal. -/
def StoreCall.line (call : StoreCall ρ) : JournalEntry ρ :=
  ⟨call.vec, call.resp, expiry call.ttl call.time⟩

variable [DecidableEq β] (c : Codec β (JournalEntry ρ))

/-- `Store` at one time. -/
def PersistentSemanticBackend.call (b : PersistentSemanticBackend β ρ) (call : StoreCall ρ) :
    PersistentSemanticBackend β ρ :=
  b.store c call.vec call.resp call.ttl call.time call.time call.time

/-- The backend after some calls on an empty directory. -/
structure Follows (maxSize : Int) (calls : List (StoreCall ρ)) (b : PersistentSemanticBackend β ρ) :
    Prop where
  maxSize_eq : b.memory.maxSize = maxSize
  fits : Fits (limitOf maxSize) b.memory.entries
  /-- At any later time, memory has all live entries of an end of the history. -/
  tracks : ∀ t, (∀ call ∈ calls, call.time ≤ t) →
    Tracks (fun e => expired e.expiresAt t) (calls.map StoreCall.entry) b.memory.entries
  /-- The journal has all entries. -/
  journal : ∃ text, b.file = some text ∧ Intact c.newline maxLine text ∧
    c.entries maxLine text = calls.map StoreCall.line

variable {c} {maxSize : Int} {calls : List (StoreCall ρ)} {b : PersistentSemanticBackend β ρ}

theorem follows_new (now : Int) (clock : Nat → LineClock) :
    Follows c maxSize [] (new c maxSize now clock none) where
  maxSize_eq := rfl
  fits := fits_nil maxSize
  tracks _ _ := tracks_nil _
  journal := ⟨[], rfl, intact_nil _ _, rfl⟩

theorem Follows.call (h : Follows c maxSize calls b) {call : StoreCall ρ}
    (hclock : ∀ old ∈ calls, old.time ≤ call.time) (hfits : c.Fits maxLine call.line) :
    Follows c maxSize (calls ++ [call]) (b.call c call) := by
  have hentries : (b.call c call).memory.entries =
      push (limitOf maxSize) (fun e => expired e.expiresAt call.time) b.memory.entries
        call.entry := by
    rw [PersistentSemanticBackend.call, PersistentSemanticBackend.store,
      store_entries, h.maxSize_eq, StoreCall.entry]
  obtain ⟨text, hfile, hintact, hlines⟩ := h.journal
  refine ⟨h.maxSize_eq, ?_, fun t ht => ?_, ?_⟩
  · rw [hentries]
    exact h.fits.push _ _
  · rw [hentries, map_append, map_singleton]
    have hle : call.time ≤ t := ht call (by simp)
    exact ((h.tracks call.time hclock).push _ _).mono fun e he => expired_mono he hle
  · refine ⟨c.append text call.line, ?_, intact_append hintact hfits, ?_⟩
    · rw [PersistentSemanticBackend.call, PersistentSemanticBackend.store, hfile]
      rfl
    · rw [entries_append hintact hfits, hlines, map_append, map_singleton]

theorem Follows.foldl_call : ∀ (later : List (StoreCall ρ)) {calls : List (StoreCall ρ)}
    {b : PersistentSemanticBackend β ρ}, Follows c maxSize calls b →
    ((calls ++ later).map (·.time)).Pairwise (· ≤ ·) → (∀ call ∈ later, c.Fits maxLine call.line) →
    Follows c maxSize (calls ++ later) (later.foldl (PersistentSemanticBackend.call c) b)
  | [], calls, b, h, _, _ => by rwa [append_nil]
  | call :: later, calls, b, h, hclock, hfits => by
    obtain ⟨hcall, hlater⟩ := forall_mem_cons.mp hfits
    have hbefore : ∀ old ∈ calls, old.time ≤ call.time := by
      rw [map_append, pairwise_append] at hclock
      exact fun old hold => hclock.2.2 _ (mem_map_of_mem hold) _ (by simp)
    have hnext := h.call hbefore hcall
    rw [append_cons] at hclock ⊢
    exact hnext.foldl_call later hclock hlater

/-! ## The replay at one time -/

theorem loadedLines_stoppedClock (t : Int) (text : List β) :
    loadedLines c t (timedLines c (stoppedClock t) text) =
      ((c.entries maxLine text).filter fun e => !expired e.expiresAt t).map (·, ⟨t, t, t⟩) := by
  have hlines : timedLines c (stoppedClock t) text =
      ((scan c.newline c.cr maxLine text).zipIdx.map Prod.fst).map (·, ⟨t, t, t⟩) := by
    rw [map_map]
    rfl
  rw [hlines, zipIdx_map_fst, loadedLines, filterMap_map, Codec.entries,
    filter_filterMap, map_filterMap]
  rfl

omit [DecidableEq β] in
theorem foldl_load_entries (t : Int) : ∀ (ps : List (JournalEntry ρ × LineClock))
    (m : MemorySemanticBackend ρ), (∀ p ∈ ps, p.2.evictRead = t) →
    (ps.foldl load m).entries =
      (ps.map storedEntry).foldl
        (push (limitOf m.maxSize) fun e => expired e.expiresAt t) m.entries
  | [], _, _ => rfl
  | p :: ps, m, h => by
    obtain ⟨hp, hps⟩ := forall_mem_cons.mp h
    have hload : (m.load p).entries =
        push (limitOf m.maxSize) (fun e => expired e.expiresAt t) m.entries
          (storedEntry p) := by
      rw [load, store_entries, hp]
      rfl
    rw [foldl_cons, foldl_load_entries t ps _ hps, map_cons, foldl_cons, hload]
    rfl

theorem replayLines_stoppedClock (maxSize t : Int) (text : List β) :
    (replayLines c maxSize t (stoppedClock t) text).memory.entries =
      Retention.cap (limitOf maxSize)
        (((c.entries maxLine text).filter fun e => !expired e.expiresAt t).map fun e =>
          storedEntry (e, ⟨t, t, t⟩)) := by
  rw [replayLines, foldl_replayLine_memory, loadedLines_stoppedClock, foldl_load_entries t,
    map_map, foldl_push_fresh _ (fits_nil maxSize), nil_append]
  · rfl
  · intro e he
    rw [nil_append] at he
    obtain ⟨line, -, rfl⟩ := mem_map.mp he
    exact expired_expiry _ t
  · intro p hp
    obtain ⟨e, -, rfl⟩ := mem_map.mp hp
    rfl

/-- The entry never expires, or it does so after `t`. -/
def outlives (t : Int) (e : VectorEntry ρ) : Bool := e.expiresAt.all (t < ·)

/-- The entry as it is stored again at `t`. -/
def restored (t : Int) (e : VectorEntry ρ) : VectorEntry ρ :=
  storedEntry (⟨e.vec, e.resp, e.expiresAt⟩, ⟨t, t, t⟩)

theorem not_expired_of_outlives {t : Int} {e : VectorEntry ρ} (h : outlives t e = true) :
    expired e.expiresAt t = false := by
  obtain ⟨vec, resp, expiresAt⟩ := e
  cases expiresAt with
  | none => rfl
  | some x =>
    have hlt : t < x := of_decide_eq_true h
    exact decide_eq_false (by omega)

theorem restored_of_outlives {t : Int} {e : VectorEntry ρ} (h : outlives t e = true) :
    restored t e = e := by
  obtain ⟨vec, resp, expiresAt⟩ := e
  cases expiresAt with
  | none => rfl
  | some x =>
    have hlt : t < x := of_decide_eq_true h
    have hstored : (restored t ⟨vec, resp, some x⟩).expiresAt = expiry (x - t) t :=
      storedEntry_expiresAt rfl
    have hexpiry : expiry (x - t) t = some x := by
      rw [expiry, if_pos (by omega)]
      exact congrArg some (by omega)
    change VectorEntry.mk vec resp (restored t ⟨vec, resp, some x⟩).expiresAt = _
    rw [hstored, hexpiry]

/-- What is in memory before a restart and outlives it is in memory after it, in the same order. -/
theorem semantic_cache_durable (maxSize t : Int) (calls : List (StoreCall ρ))
    (hclock : (calls.map (·.time)).Pairwise (· ≤ ·)) (hlast : ∀ call ∈ calls, call.time ≤ t)
    (hfits : ∀ call ∈ calls, c.Fits maxLine call.line) (now : Int) (clock : Nat → LineClock) :
    let before := calls.foldl (call c)
      (new c maxSize now clock none)
    let after := new c maxSize t (stoppedClock t) before.file
    (before.memory.entries.filter (outlives t)).Sublist after.memory.entries := by
  intro before after
  have hfollows : Follows c maxSize calls before :=
    (follows_new now clock).foldl_call calls hclock hfits
  obtain ⟨text, hfile, -, hlines⟩ := hfollows.journal
  have hafter : after.memory.entries =
      Retention.cap (limitOf maxSize) (((calls.map StoreCall.entry).filter fun e =>
        !expired e.expiresAt t).map (restored t)) := by
    have hmemory : after.memory = (replayLines c maxSize t (stoppedClock t) text).memory := by
      simp only [after, hfile]
      rfl
    rw [hmemory, replayLines_stoppedClock, hlines, filter_map, filter_map, map_map, map_map]
    rfl
  have hsame : (before.memory.entries.filter (outlives t)).map (restored t) =
      before.memory.entries.filter (outlives t) :=
    (map_congr_left fun e he => restored_of_outlives (mem_filter.mp he).2).trans
      (map_id _)
  rw [hafter, ← Retention.map_cap, ← hsame]
  refine Sublist.map _ (Sublist.trans ?_
    ((hfollows.tracks t hlast).sublist_cap hfollows.fits))
  refine monotone_filter_right _ fun e he => ?_
  rw [not_expired_of_outlives he]
  rfl

def twoCalls : List (StoreCall String) := [⟨[1], "first", 0, 1⟩, ⟨[1], "second", 5, 2⟩]

/-- In a cache for one entry, the second is there before a restart at 3 and after it. -/
theorem second_call_survives :
    let before := twoCalls.foldl
      (call (symbols (JournalEntry String)))
      (new (symbols (JournalEntry String)) 1 0 (stoppedClock 0)
        none)
    before.memory.entries = [⟨[1], "second", some 7⟩] ∧
      (⟨[1], "second", some 7⟩ : VectorEntry String) ∈ (new
        (symbols (JournalEntry String)) 1 3 (stoppedClock 3) before.file).memory.entries := by
  intro before
  have hkept : before.memory.entries.filter (outlives 3) = [⟨[1], "second", some 7⟩] := by decide
  have hdurable := semantic_cache_durable (c := symbols (JournalEntry String)) 1 3 twoCalls
    (by decide) (by decide) (fun _ _ => symbols_fits (by decide) _) 0
    (stoppedClock 0)
  exact ⟨by decide, hdurable.subset (by rw [hkept]; exact mem_singleton_self _)⟩

end Ixr.Cache
