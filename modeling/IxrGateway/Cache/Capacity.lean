import IxrGateway.Cache.Exact

/-!
# Evictions from the exact-match cache

`Set` makes room before it looks whether its key is there.  So in a cache that is
full of unexpired entries a key that is set again costs the entry of another key,
unless the map happens to give the key itself first (`lost_iff`).  Apart from that
the cache evicts only when it must, and what is neither evicted nor invalidated is
found until it expires.
-/

namespace Ixr.Cache.Memory

open List

variable {κ ρ : Type} [DecidableEq κ]

/-! ## Runs -/

/-- A call of the cache. -/
inductive Op (κ ρ : Type) where
  | set (k : κ) (resp : ρ) (ttl now now' : Int) (order order' : List κ)
  | get (k : κ) (now : Int)
  | invalidate (k : κ)

/-- What a call does. -/
def step (m : Memory κ ρ) : Op κ ρ → Memory κ ρ
  | .set k resp ttl now now' order order' => m.set k resp ttl now now' order order'
  | .get k now => (m.get k now).2
  | .invalidate k => m.invalidate k

/-- The times that a call reads. -/
def Op.readings : Op κ ρ → List Int
  | .set _ _ _ now now' _ _ => [now, now']
  | .get _ now => [now]
  | .invalidate _ => []

/-- The orders are ones of the map. -/
def Op.Possible (m : Memory κ ρ) : Op κ ρ → Prop
  | .set _ _ _ _ _ order order' => order.Perm m.entries.keys ∧ order'.Perm m.entries.keys
  | .get _ _ | .invalidate _ => True

/-- The calls one after the other. -/
def run (m : Memory κ ρ) (ops : List (Op κ ρ)) : Memory κ ρ := ops.foldl step m

/-- Each call is possible when it comes. -/
def Possible (m : Memory κ ρ) : List (Op κ ρ) → Prop
  | [] => True
  | op :: ops => op.Possible m ∧ Possible (m.step op) ops

/-- The states of a cache. -/
def Reached (maxSize defaultTTL : Int) (m : Memory κ ρ) : Prop :=
  ∃ ops, (new maxSize defaultTTL).Possible ops ∧ (new maxSize defaultTTL).run ops = m

/-! ## The victim -/

/-- There is no room for another key. -/
def Full (m : Memory κ ρ) : Prop := 0 < m.maxSize ∧ m.maxSize ≤ m.size

instance (m : Memory κ ρ) : Decidable m.Full := inferInstanceAs (Decidable (_ ∧ _))

/-- The key that `evictOldest` removes. -/
def victim (m : Memory κ ρ) (now : Int) (order order' : List κ) : Option κ :=
  (order.find? (m.hasExpired now)).or order'.head?

/-- The key that the call evicts. -/
def Op.evicts (m : Memory κ ρ) : Op κ ρ → Option κ
  | .set _ _ _ now _ order order' => if m.Full then m.victim now order order' else none
  | .get _ _ | .invalidate _ => none

/-- The entries without a key. -/
def without (m : Memory κ ρ) (k : Option κ) : AList fun _ : κ => Entry ρ :=
  k.elim m.entries fun k => m.entries.erase k

theorem evictOldest_eq (m : Memory κ ρ) (now : Int) (order order' : List κ) :
    m.evictOldest now order order' =
      { m with entries := m.without (m.victim now order order') } := by
  unfold evictOldest victim
  cases order.find? (m.hasExpired now) with
  | some k => rfl
  | none =>
    cases order' with
    | nil | cons => rfl

theorem entries_set (m : Memory κ ρ) (k : κ) (resp : ρ) (ttl now now' : Int)
    (order order' : List κ) :
    (m.set k resp ttl now now' order order').entries =
      AList.insert k ⟨resp, expiry (if 0 < ttl then ttl else m.defaultTTL) now'⟩
        (m.without ((Op.set k resp ttl now now' order order').evicts m)) := by
  have hroom : (if 0 < m.maxSize ∧ m.maxSize ≤ m.size then m.evictOldest now order order' else m) =
      { m with entries := m.without ((Op.set k resp ttl now now' order order').evicts m) } := by
    rw [Op.evicts]
    split
    · next hfull => rw [evictOldest_eq, if_pos (show m.Full from hfull)]
    · next hroom =>
      rw [if_neg (show ¬ m.Full from hroom)]
      rfl
  rw [set, hroom]

variable {m : Memory κ ρ} {k : κ} {now : Int} {e : Entry ρ} {ops : List (Op κ ρ)}

theorem lookup_without_of_ne {gone : Option κ} (h : gone ≠ some k) :
    (m.without gone).lookup k = m.entries.lookup k := by
  cases gone with
  | none => rfl
  | some k' => exact AList.lookup_erase_ne fun heq => h (congrArg some heq.symm)

/-- The key is there and not expired. -/
def live (m : Memory κ ρ) (now : Int) (k : κ) : Bool :=
  (m.entries.lookup k).any fun e => !expired e.expiresAt now

/-- There is no room, and all entries have still time. -/
def FullOfLive (m : Memory κ ρ) (now : Int) : Prop :=
  m.Full ∧ ∀ k ∈ m.entries.keys, m.live now k = true

theorem live_eq_not_hasExpired (h : k ∈ m.entries.keys) : m.live now k = !m.hasExpired now k := by
  obtain ⟨e, he⟩ := Option.isSome_iff_exists.mp (AList.lookup_isSome.mpr (AList.mem_keys.mpr h))
  rw [live, hasExpired, he, Option.any_some, Option.any_some]

theorem mem_keys_of_live (h : m.live now k = true) : k ∈ m.entries.keys := by
  cases hlookup : m.entries.lookup k with
  | none =>
    rw [live, hlookup] at h
    cases h
  | some e => exact AList.mem_keys.mp (AList.lookup_isSome.mp (by rw [hlookup]; rfl))

/-! ## What a call keeps -/

/-- The call does not change the entry of the key, unless it finds it expired. -/
def Op.Spares (m : Memory κ ρ) (k : κ) : Op κ ρ → Prop
  | .set k' resp ttl now now' order order' =>
    k' ≠ k ∧ (Op.set k' resp ttl now now' order order').evicts m ≠ some k
  | .get _ _ => True
  | .invalidate k' => k' ≠ k

/-- The key is neither set nor evicted nor invalidated. -/
def Keeps (k : κ) : Memory κ ρ → List (Op κ ρ) → Prop
  | _, [] => True
  | m, op :: ops => op.Spares m k ∧ Keeps k (m.step op) ops

theorem lookup_step {op : Op κ ρ} (hspares : op.Spares m k) (hlookup : m.entries.lookup k = some e)
    (hlive : ∀ t ∈ op.readings, expired e.expiresAt t = false) :
    (m.step op).entries.lookup k = some e := by
  cases op with
  | set k' resp ttl now now' order order' =>
    rw [step, entries_set, AList.lookup_insert_ne hspares.1.symm,
      lookup_without_of_ne hspares.2, hlookup]
  | get k' now =>
    rw [step, get]
    cases hother : m.entries.lookup k' with
    | none => exact hlookup
    | some e' =>
      dsimp only
      split
      · next hexpired =>
        have hne : k ≠ k' := by
          rintro rfl
          rw [hlookup] at hother
          cases hother
          exact absurd hexpired (Bool.eq_false_iff.mp (hlive now mem_cons_self))
        exact (AList.lookup_erase_ne hne).trans hlookup
      · exact hlookup
  | invalidate k' =>
    exact (AList.lookup_erase_ne fun heq => hspares heq.symm).trans hlookup

theorem Keeps.lookup_run (hkeeps : Keeps k m ops) (hlookup : m.entries.lookup k = some e)
    (hlive : ∀ op ∈ ops, ∀ t ∈ op.readings, expired e.expiresAt t = false) :
    (m.run ops).entries.lookup k = some e := by
  induction ops generalizing m with
  | nil => exact hlookup
  | cons op ops ih =>
    obtain ⟨hop, hops⟩ := forall_mem_cons.mp hlive
    exact ih hkeeps.2 (lookup_step hkeeps.1 hlookup hop) hops

theorem get_of_keeps {T : Int} (hkeeps : Keeps k m ops) (hlookup : m.entries.lookup k = some e)
    (hclock : ∀ op ∈ ops, ∀ t ∈ op.readings, t ≤ T) (hlive : expired e.expiresAt T = false) :
    ((m.run ops).get k T).1 = some e.resp := by
  have hrun : (m.run ops).entries.lookup k = some e := by
    apply hkeeps.lookup_run hlookup
    intro op hop t ht
    apply Bool.eq_false_iff.mpr
    intro hexpired
    exact Bool.eq_false_iff.mp hlive (expired_mono hexpired (hclock op hop t ht))
  rw [get, hrun]
  dsimp only
  rw [hlive]
  rfl

/-! ## The size -/

theorem step_maxSize (m : Memory κ ρ) (op : Op κ ρ) : (m.step op).maxSize = m.maxSize := by
  cases op with
  | set k resp ttl now now' order order' =>
    show (if m.Full then m.evictOldest now order order' else m).maxSize = m.maxSize
    split
    · rw [evictOldest_eq]
    · rfl
  | get k now =>
    rw [step, get]
    cases m.entries.lookup k with
    | none => rfl
    | some e =>
      dsimp only
      split
      · rfl
      · rfl
  | invalidate k => rfl

theorem size_without_le (m : Memory κ ρ) (gone : Option κ) :
    ((m.without gone).keys.length : Int) ≤ m.size := by
  cases gone with
  | none => exact le_refl _
  | some k =>
    show ((m.entries.erase k).keys.length : Int) ≤ m.entries.keys.length
    rw [AList.keys_erase]
    exact Int.ofNat_le.mpr length_erase_le

theorem size_without (h : k ∈ m.entries.keys) :
    ((m.without (some k)).keys.length : Int) = m.size - 1 := by
  have hpos := length_pos_of_mem h
  show ((m.entries.erase k).keys.length : Int) = m.entries.keys.length - 1
  rw [AList.keys_erase, length_erase_of_mem h]
  omega

theorem exists_victim (now : Int) {order order' : List κ} (horder : order.Perm m.entries.keys)
    (horder' : order'.Perm m.entries.keys) (hfull : m.Full) :
    ∃ k ∈ m.entries.keys, m.victim now order order' = some k := by
  rw [victim]
  cases hfind : order.find? (m.hasExpired now) with
  | some k => exact ⟨k, horder.subset (mem_of_find?_eq_some hfind), rfl⟩
  | none =>
    cases order' with
    | nil =>
      have hempty : m.entries.keys = [] := nil_perm.mp horder'
      have hsize : m.size = 0 := by rw [size, hempty]; rfl
      have hpos := hfull.1
      have hle := hfull.2
      omega
    | cons k order' => exact ⟨k, horder'.subset mem_cons_self, rfl⟩

theorem size_step_le {op : Op κ ρ} (hpos : 1 ≤ m.maxSize) (hpossible : op.Possible m)
    (h : m.size ≤ m.maxSize) : (m.step op).size ≤ m.maxSize := by
  cases op with
  | set k resp ttl now now' order order' =>
    have hinsert (gone : Option κ) (e : Entry ρ) :
        (((m.without gone).insert k e).keys.length : Int) ≤ (m.without gone).keys.length + 1 := by
      rw [AList.keys_insert, length_cons]
      exact_mod_cast Nat.succ_le_succ length_erase_le
    show ((m.set k resp ttl now now' order order').entries.keys.length : Int) ≤ _
    rw [entries_set, Op.evicts]
    refine (hinsert _ _).trans ?_
    split
    · next hfull =>
      obtain ⟨k', hk', hvictim⟩ := exists_victim now hpossible.1 hpossible.2 hfull
      rw [hvictim, size_without hk']
      omega
    · next hroom =>
      have hle := size_without_le m none
      rw [Full] at hroom
      omega
  | get k now =>
    rw [step, get]
    cases m.entries.lookup k with
    | none => exact h
    | some e =>
      dsimp only
      split
      · exact (size_without_le m (some k)).trans h
      · exact h
  | invalidate k => exact (size_without_le m (some k)).trans h

theorem size_run_le (hpos : 1 ≤ m.maxSize) (hpossible : m.Possible ops) (h : m.size ≤ m.maxSize) :
    (m.run ops).size ≤ m.maxSize ∧ (m.run ops).maxSize = m.maxSize := by
  induction ops generalizing m with
  | nil => exact ⟨h, rfl⟩
  | cons op ops ih =>
    have hsize := step_maxSize m op
    have hstep := size_step_le hpos hpossible.1 h
    obtain ⟨hle, heq⟩ := ih (by rwa [hsize]) hpossible.2 (by rwa [hsize])
    exact ⟨by rwa [hsize] at hle, heq.trans hsize⟩

/-! ## What a call costs -/

/-- A call of `Set` loses the unexpired entry of another key exactly if the cache is full of
unexpired entries, and the key comes first in the second loop. -/
theorem lost_iff {k' : κ} (resp : ρ) (ttl : Int) (now' : Int) {order order' : List κ}
    (horder : order.Perm m.entries.keys) (horder' : order'.Perm m.entries.keys) (hne : k' ≠ k) :
    m.live now k' = true ∧ (m.set k resp ttl now now' order order').entries.lookup k' = none ↔
      m.FullOfLive now ∧ order'.head? = some k' := by
  rw [entries_set, AList.lookup_insert_ne hne]
  constructor
  · rintro ⟨hlive, hgone⟩
    have hmem := mem_keys_of_live hlive
    have hevicts : (Op.set k resp ttl now now' order order').evicts m = some k' := by
      by_contra hother
      rw [lookup_without_of_ne hother] at hgone
      exact AList.lookup_eq_none.mp hgone (AList.mem_keys.mpr hmem)
    rw [Op.evicts] at hevicts
    split at hevicts
    · next hfull =>
      rw [victim] at hevicts
      cases hfind : order.find? (m.hasExpired now) with
      | some k₀ =>
        rw [hfind] at hevicts
        cases hevicts
        rw [live_eq_not_hasExpired hmem, find?_some hfind] at hlive
        cases hlive
      | none =>
        rw [hfind] at hevicts
        refine ⟨⟨hfull, ?_⟩, hevicts⟩
        intro x hx
        have hfresh := find?_eq_none.mp hfind x (horder.mem_iff.mpr hx)
        rw [live_eq_not_hasExpired hx, Bool.eq_false_iff.mpr hfresh]
        rfl
    · cases hevicts
  · rintro ⟨⟨hfull, hlive⟩, hhead⟩
    have hmem : k' ∈ m.entries.keys := horder'.subset (mem_of_head? hhead)
    have hfind : order.find? (m.hasExpired now) = none := by
      rw [find?_eq_none]
      intro x hx hexpired
      have hx' := horder.subset hx
      have hfresh := hlive x hx'
      rw [live_eq_not_hasExpired hx', hexpired] at hfresh
      cases hfresh
    refine ⟨hlive k' hmem, ?_⟩
    rw [Op.evicts, if_pos hfull, victim, hfind, Option.none_or, hhead]
    exact AList.lookup_erase _ _

/-- The cache is never larger than allowed.  A call of `Set` loses an unexpired entry of another key
only if the cache is full of such entries.  It does so although its key is there exactly if the map
gives another key first.  What is neither evicted nor invalidated is found until it expires. -/
theorem cache_evictions {maxSize defaultTTL : Int} (hsize : 1 ≤ maxSize) {m : Memory κ ρ}
    (hreached : Reached maxSize defaultTTL m) :
    m.size ≤ maxSize ∧
    ∀ k resp ttl now now' order order',
      (Op.set k resp ttl now now' order order').Possible m →
      (∀ k', k' ≠ k → m.live now k' = true →
        (m.set k resp ttl now now' order order').entries.lookup k' = none → m.FullOfLive now) ∧
      ((∀ k', k' ≠ k → m.live now k' = true →
          (m.set k resp ttl now now' order order').entries.lookup k' = none →
          m.FullOfLive now ∧ k ∉ m.entries.keys) ↔
        ¬ (m.FullOfLive now ∧ k ∈ m.entries.keys ∧ order'.head? ≠ some k)) ∧
      ∀ later T, Keeps k (m.set k resp ttl now now' order order') later →
        (∀ op ∈ later, ∀ t ∈ op.readings, t ≤ T) →
        expired (expiry (if 0 < ttl then ttl else m.defaultTTL) now') T = false →
        (((m.set k resp ttl now now' order order').run later).get k T).1 = some resp := by
  obtain ⟨ops, hpossible, rfl⟩ := hreached
  have hstart : (new maxSize defaultTTL : Memory κ ρ).size ≤ maxSize := by
    show (0 : Int) ≤ maxSize
    omega
  refine ⟨(size_run_le hsize hpossible hstart).1, ?_⟩
  generalize (new maxSize defaultTTL).run ops = m
  rintro k resp ttl now now' order order' ⟨horder, horder'⟩
  refine ⟨?_, ?_, ?_⟩
  · intro k' hne hlive hgone
    exact ((lost_iff resp ttl now' horder horder' hne).mp ⟨hlive, hgone⟩).1
  · constructor
    · rintro hmust ⟨hfull, hk, hhead⟩
      cases horder'' : order' with
      | nil =>
        rw [horder''] at horder'
        rw [nil_perm.mp horder'] at hk
        cases hk
      | cons k' rest =>
        rw [horder''] at hhead
        have hne : k' ≠ k := fun heq => hhead (congrArg some heq)
        have hfirst : order'.head? = some k' := by rw [horder'']; rfl
        obtain ⟨hlive, hgone⟩ :=
          (lost_iff resp ttl now' horder horder' hne).mpr ⟨hfull, hfirst⟩
        exact (hmust k' hne hlive hgone).2 hk
    · intro hnot k' hne hlive hgone
      obtain ⟨hfull, hhead⟩ :=
        (lost_iff resp ttl now' horder horder' hne).mp ⟨hlive, hgone⟩
      refine ⟨hfull, fun hk => hnot ⟨hfull, hk, ?_⟩⟩
      rw [hhead]
      exact fun heq => hne (Option.some.inj heq)
  · intro later T hkeeps hclock hlive
    have hlookup : (m.set k resp ttl now now' order order').entries.lookup k =
        some ⟨resp, expiry (if 0 < ttl then ttl else m.defaultTTL) now'⟩ := by
      rw [entries_set, AList.lookup_insert]
    exact get_of_keeps hkeeps hlookup hclock hlive

def twoKeys : List (Op Nat Nat) := [.set 1 10 0 0 0 [] [], .set 2 20 0 0 0 [1] [1]]

theorem reached_twoKeys : Reached 2 0 ((new 2 0).run twoKeys) :=
  ⟨twoKeys, ⟨⟨by decide, by decide⟩, ⟨by decide, by decide⟩, trivial⟩, rfl⟩

/-- A third key makes room for itself, and is found. -/
theorem third_key_evicts :
    ((new 2 0).run twoKeys : Memory Nat Nat).size ≤ 2 ∧
      ((((new 2 0).run twoKeys).set 3 30 0 0 0 [2, 1] [2, 1]).get 3 0).1 = some 30 := by
  obtain ⟨hle, hset⟩ := cache_evictions (by decide) reached_twoKeys
  exact ⟨hle, (hset 3 30 0 0 0 [2, 1] [2, 1] ⟨by decide, by decide⟩).2.2 [] 0 trivial
    (forall_mem_nil _) (by decide)⟩

/-- A key that is set again pushes out the other one. -/
theorem overwrite_evicts :
    Reached 2 0 ((new 2 0).run twoKeys : Memory Nat Nat) ∧
      (Op.set 1 11 0 0 0 [2, 1] [2, 1]).Possible ((new 2 0).run twoKeys) ∧
      1 ∈ ((new 2 0).run twoKeys).entries.keys ∧
      ((new 2 0).run twoKeys).live 0 2 = true ∧
      (((new 2 0).run twoKeys).set 1 11 0 0 0 [2, 1] [2, 1]).entries.lookup 2 = none :=
  ⟨reached_twoKeys, ⟨by decide, by decide⟩, by decide, by decide, by decide⟩

end Ixr.Cache.Memory
