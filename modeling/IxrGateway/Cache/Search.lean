import IxrGateway.Cache.Durability

/-!
# Searching the vector backend

The backend is an evicting list (`Eviction`), so it holds the entries that were
stored in their order, and a store into a full backend costs one entry.  `Find` is
a scan for the first of the most similar entries.  Only the order of similarities
matters to it, so the similarity is any function here (`findBy`), and the cosine of
the source is one case (`find_eq_findBy`).
-/

namespace Ixr.Cache

open List MemorySemanticBackend Eviction

variable {ρ S : Type} [LinearOrder S]

theorem exists_split_of_argmax {α : Type} {f : α → S} {xs : List α} {a : α}
    (h : xs.argmax f = some a) :
    ∃ before after, xs = before ++ a :: after ∧ (∀ x ∈ before, f x < f a) ∧
      ∀ x ∈ after, f x ≤ f a := by
  induction xs using reverseRecOn with
  | nil => cases h
  | append_singleton xs y ih =>
    rw [argmax_concat] at h
    cases hmax : xs.argmax f with
    | none =>
      rw [hmax] at h
      cases h
      rw [argmax_eq_none.mp hmax]
      exact ⟨[], [], rfl, forall_mem_nil _, forall_mem_nil _⟩
    | some c =>
      rw [hmax] at h
      dsimp only at h
      split at h
      · next hlt =>
        cases h
        refine ⟨xs, [], rfl, ?_, forall_mem_nil _⟩
        intro x hx
        exact (le_of_mem_argmax hx hmax).trans_lt hlt
      · next hle =>
        cases h
        obtain ⟨before, after, hsplit, hbefore, hafter⟩ := ih hmax
        refine ⟨before, after ++ [y], ?_, hbefore, ?_⟩
        · rw [hsplit, append_assoc, cons_append]
        · intro x hx
          rcases mem_append.mp hx with hx | hx
          · exact hafter x hx
          · rw [mem_singleton.mp hx]
            exact not_lt.mp hle

namespace MemorySemanticBackend

variable [Zero S]

/-- One round of the loop of `Find`, for any similarity. -/
def findStepBy (similarity : Vec → Vec → S) (vec : Vec) (threshold : S) (now : Int)
    (best : Option ρ × S) (e : VectorEntry ρ) : Option ρ × S :=
  if expired e.expiresAt now then best
  else
    let score := similarity vec e.vec
    if threshold ≤ score ∧ best.2 < score then (some e.resp, score) else best

/-- `MemorySemanticBackend.Find`, for any similarity. -/
def findBy (similarity : Vec → Vec → S) (b : MemorySemanticBackend ρ) (vec : Vec) (threshold : S)
    (now : Int) : Option ρ :=
  (b.entries.foldl (findStepBy similarity vec threshold now) (none, 0)).1

theorem find_eq_findBy (sqrt : ℚ → ℚ) (b : MemorySemanticBackend ρ) (vec : Vec) (threshold : ℚ)
    (now : Int) :
    b.find sqrt vec threshold now = b.findBy (cosineSimilarity sqrt) vec threshold now := rfl

/-! ## The first of the most similar -/

/-- The entry has not expired, and it is similar enough and not only as similar as any other. -/
def Matches (similarity : Vec → Vec → S) (vec : Vec) (threshold : S) (now : Int)
    (e : VectorEntry ρ) : Prop :=
  expired e.expiresAt now = false ∧ threshold ≤ similarity vec e.vec ∧ 0 < similarity vec e.vec

instance (similarity : Vec → Vec → S) (vec : Vec) (threshold : S) (now : Int)
    (e : VectorEntry ρ) : Decidable (Matches similarity vec threshold now e) :=
  inferInstanceAs (Decidable (_ ∧ _ ∧ _))

section

variable {similarity : Vec → Vec → S} {vec : Vec} {threshold : S} {now : Int}

/-- What the loop has if the best entry so far is given. -/
def reached (similarity : Vec → Vec → S) (vec : Vec) (best : Option (VectorEntry ρ)) :
    Option ρ × S :=
  best.elim (none, 0) fun e => (some e.resp, similarity vec e.vec)

theorem findStepBy_reached {best : Option (VectorEntry ρ)}
    (hbest : ∀ c, best = some c → 0 < similarity vec c.vec) (e : VectorEntry ρ) :
    findStepBy similarity vec threshold now (reached similarity vec best) e =
      reached similarity vec (if Matches similarity vec threshold now e then
        best.elim (some e) fun c =>
          if similarity vec c.vec < similarity vec e.vec then some e else some c
      else best) := by
  have hscore : 0 ≤ (reached similarity vec best).2 := by
    cases best with
    | none => exact le_refl 0
    | some c => exact (hbest c rfl).le
  rw [findStepBy]
  split
  · next hexpired =>
    rw [if_neg fun hmatch : Matches .. => absurd (hexpired.symm.trans hmatch.1) (by decide)]
  · next hlive =>
    dsimp only
    split
    · next hbetter =>
      have hmatch : Matches similarity vec threshold now e :=
        ⟨Bool.eq_false_iff.mpr hlive, hbetter.1, hscore.trans_lt hbetter.2⟩
      rw [if_pos hmatch]
      cases best with
      | none => rfl
      | some c =>
        have hlt : similarity vec c.vec < similarity vec e.vec := hbetter.2
        rw [Option.elim_some, if_pos hlt]
        rfl
    · next hworse =>
      split
      · next hmatch =>
        cases best with
        | none => exact absurd ⟨hmatch.2.1, hmatch.2.2⟩ hworse
        | some c =>
          have hge : ¬ similarity vec c.vec < similarity vec e.vec := fun hlt =>
            hworse ⟨hmatch.2.1, hlt⟩
          rw [Option.elim_some, if_neg hge]
      · rfl

theorem foldl_findStepBy (es : List (VectorEntry ρ)) :
    es.foldl (findStepBy similarity vec threshold now) (none, 0) =
      reached similarity vec ((es.filter fun e => Matches similarity vec threshold now e).argmax
        fun e => similarity vec e.vec) := by
  induction es using reverseRecOn with
  | nil => rfl
  | append_singleton es e ih =>
    have hbest : ∀ c, (es.filter fun e => Matches similarity vec threshold now e).argmax
        (fun e => similarity vec e.vec) = some c → 0 < similarity vec c.vec := by
      intro c hc
      exact (of_decide_eq_true (mem_filter.mp (argmax_mem hc)).2).2.2
    rw [foldl_append, ih, foldl_cons, foldl_nil, findStepBy_reached hbest,
      filter_append, filter_singleton]
    split
    · next hmatch =>
      rw [decide_eq_true hmatch, cond_true, argmax_concat]
      cases (es.filter fun e => Matches similarity vec threshold now e).argmax
          (fun e => similarity vec e.vec) with
      | none | some => rfl
    · next hmatch => rw [decide_eq_false hmatch, cond_false, append_nil]

theorem findBy_eq_some {b : MemorySemanticBackend ρ} {resp : ρ}
    (h : b.findBy similarity vec threshold now = some resp) :
    ∃ before e after,
      (b.entries.filter fun e => Matches similarity vec threshold now e) = before ++ e :: after ∧
      e.resp = resp ∧ (∀ x ∈ before, similarity vec x.vec < similarity vec e.vec) ∧
      ∀ x ∈ after, similarity vec x.vec ≤ similarity vec e.vec := by
  rw [findBy, foldl_findStepBy] at h
  cases hmax : (b.entries.filter fun e => Matches similarity vec threshold now e).argmax
      (fun e => similarity vec e.vec) with
  | none =>
    rw [hmax] at h
    cases h
  | some e =>
    rw [hmax] at h
    cases h
    obtain ⟨before, after, hsplit, hbefore, hafter⟩ := exists_split_of_argmax hmax
    exact ⟨before, e, after, hsplit, rfl, hbefore, hafter⟩

theorem findBy_isSome_iff {b : MemorySemanticBackend ρ} :
    (b.findBy similarity vec threshold now).isSome = true ↔
      ∃ e ∈ b.entries, Matches similarity vec threshold now e := by
  have hsome : (b.findBy similarity vec threshold now).isSome =
      ((b.entries.filter fun e => Matches similarity vec threshold now e).argmax
        fun e => similarity vec e.vec).isSome := by
    rw [findBy, foldl_findStepBy]
    cases (b.entries.filter fun e => Matches similarity vec threshold now e).argmax
        (fun e => similarity vec e.vec) with
    | none | some => rfl
  rw [hsome, Option.isSome_iff_ne_none, ne_eq, argmax_eq_none, filter_eq_nil_iff]
  simp

end

end MemorySemanticBackend

/-! ## Runs of stores -/

/-- A call of `Store`, with the clock readings for an eviction and for the expiry. -/
structure TimedStore (ρ : Type) where
  vec : Vec
  resp : ρ
  ttl : Int
  evictTime : Int
  storeTime : Int
deriving Repr, DecidableEq

/-- The entry that is stored. -/
def TimedStore.entry (s : TimedStore ρ) : VectorEntry ρ :=
  ⟨s.vec, s.resp, expiry s.ttl s.storeTime⟩

/-- `Store` at its times. -/
def MemorySemanticBackend.add (b : MemorySemanticBackend ρ) (s : TimedStore ρ) :
    MemorySemanticBackend ρ := b.store s.vec s.resp s.ttl s.evictTime s.storeTime

/-- The backend after the calls. -/
def stored (maxSize : Int) (stores : List (TimedStore ρ)) : MemorySemanticBackend ρ :=
  stores.foldl add { maxSize := maxSize }

variable (maxSize : Int) (stores : List (TimedStore ρ))

theorem stored_concat (s : TimedStore ρ) :
    stored maxSize (stores ++ [s]) = (stored maxSize stores).add s := by
  rw [stored, foldl_append]
  rfl

theorem stored_maxSize : (stored maxSize stores).maxSize = maxSize := by
  induction stores using reverseRecOn with
  | nil => rfl
  | append_singleton stores s ih =>
    rw [stored_concat]
    exact ih

theorem entries_stored_concat (s : TimedStore ρ) :
    (stored maxSize (stores ++ [s])).entries =
      push (limitOf maxSize) (fun e => expired e.expiresAt s.evictTime)
        (stored maxSize stores).entries s.entry := by
  rw [stored_concat, add, store_entries, stored_maxSize]
  rfl

theorem stored_holds :
    Fits (limitOf maxSize) (stored maxSize stores).entries ∧
      (stored maxSize stores).entries.Sublist (stores.map TimedStore.entry) := by
  induction stores using reverseRecOn with
  | nil => exact ⟨fits_nil maxSize, Sublist.refl _⟩
  | append_singleton stores s ih =>
    rw [entries_stored_concat, map_append, map_singleton]
    exact ⟨ih.1.push _ _, push_sublist ih.2 _ _ _⟩

theorem limitOf_of_pos {maxSize : Int} (h : 1 ≤ maxSize) :
    limitOf maxSize = some maxSize.toNat := by
  rw [limitOf, if_pos (by omega)]

/-- A backend holds at most `maxSize` of the entries stored, in their order.  A store into a full
one costs the first expired entry, or the oldest if none has expired.  A search finds the first of
the most similar entries, if one matches at all. -/
theorem backend_search [Zero S] (similarity : Vec → Vec → S) {maxSize : Int} (hsize : 1 ≤ maxSize)
    (stores : List (TimedStore ρ)) :
    ((stored maxSize stores).entries.length ≤ maxSize ∧
      (stored maxSize stores).entries.Sublist (stores.map TimedStore.entry)) ∧
    (∀ s, if (stored maxSize stores).entries.length = maxSize then
        ∃ before e after, (stored maxSize stores).entries = before ++ e :: after ∧
          (stored maxSize (stores ++ [s])).entries = before ++ after ++ [s.entry] ∧
          (expired e.expiresAt s.evictTime = true ∧
              (∀ x ∈ before, expired x.expiresAt s.evictTime = false) ∨
            before = [] ∧ ∀ x ∈ (stored maxSize stores).entries,
              expired x.expiresAt s.evictTime = false)
      else (stored maxSize (stores ++ [s])).entries =
        (stored maxSize stores).entries ++ [s.entry]) ∧
    ∀ vec threshold now,
      (((stored maxSize stores).findBy similarity vec threshold now).isSome = true ↔
        ∃ e ∈ (stored maxSize stores).entries, expired e.expiresAt now = false ∧
          threshold ≤ similarity vec e.vec ∧ 0 < similarity vec e.vec) ∧
      ∀ resp, (stored maxSize stores).findBy similarity vec threshold now = some resp →
        ∃ before e after, ((stored maxSize stores).entries.filter fun e =>
            Matches similarity vec threshold now e) =
              before ++ e :: after ∧
          e.resp = resp ∧ (∀ x ∈ before, similarity vec x.vec < similarity vec e.vec) ∧
          ∀ x ∈ after, similarity vec x.vec ≤ similarity vec e.vec := by
  obtain ⟨hfits, hsub⟩ := stored_holds maxSize stores
  have hlength : (stored maxSize stores).entries.length ≤ maxSize := by
    have hle := hfits.length_le maxSize.toNat (limitOf_of_pos hsize)
    omega
  refine ⟨⟨hlength, hsub⟩, ?_, ?_⟩
  · intro s
    rw [entries_stored_concat, push, limitOf_of_pos hsize, full, Option.any_some]
    split
    · next hfull =>
      have hne : (stored maxSize stores).entries ≠ [] := by
        intro hnil
        rw [hnil] at hfull
        simp only [length_nil] at hfull
        omega
      obtain ⟨before, e, after, hsplit, hevict, hwhich⟩ :=
        exists_evict hne fun e => expired e.expiresAt s.evictTime
      rw [if_pos (decide_eq_true (by omega)), hevict]
      exact ⟨before, e, after, hsplit, rfl, hwhich⟩
    · next hroom =>
      rw [if_neg]
      rw [decide_eq_true_iff]
      omega
  · intro vec threshold now
    exact ⟨findBy_isSome_iff,
      fun resp => findBy_eq_some⟩

/-- The second of these entries expires at 5, before the last one is stored. -/
def fourStores : List (TimedStore Nat) :=
  [⟨[1], 1, 0, 0, 0⟩, ⟨[2], 2, 5, 0, 0⟩, ⟨[1], 3, 0, 1, 1⟩, ⟨[2], 4, 0, 9, 9⟩]

/-- The expired entry makes room, and of two entries that are equally similar the older is found. -/
theorem older_of_tie_found :
    (stored 3 fourStores).entries.map (·.resp) = [1, 3, 4] ∧
      (stored 3 fourStores).findBy (fun v w => if v = w then 1 else 0) [1] 1 9 = some 1 := by
  obtain ⟨hsome, hfirst⟩ := (backend_search (fun v w => if v = w then 1 else 0)
    (by decide : (1 : Int) ≤ 3) fourStores).2.2 [1] 1 9
  obtain ⟨resp, hresp⟩ := Option.isSome_iff_exists.mp
    (hsome.mpr ⟨⟨[1], 1, none⟩, by decide, by decide⟩)
  obtain ⟨before, e, after, hsplit, rfl, hbefore, -⟩ := hfirst resp hresp
  have hties : (stored 3 fourStores).entries.filter (fun e => Matches
      (fun v w => if v = w then 1 else 0) [1] 1 9 e) = [⟨[1], 1, none⟩, ⟨[1], 3, none⟩] := by decide
  rw [hties] at hsplit
  cases before with
  | nil =>
    cases hsplit
    exact ⟨by decide, hresp⟩
  | cons x before =>
    obtain ⟨rfl, hrest⟩ := cons.inj hsplit
    have he : e ∈ [(⟨[1], 3, none⟩ : VectorEntry Nat)] := by simp [hrest]
    rw [mem_singleton.mp he] at hbefore
    exact absurd (hbefore _ mem_cons_self) (by decide)

end Ixr.Cache
