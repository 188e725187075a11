import IxrGateway.Memory.Store

/-!
# Restarting the memory store

A new store on the same directory should answer as the old one would have.
Memory and journal differ: the journal has entries that were pruned from memory
and not yet compacted away.  But pruning the journal's lines of a user at any
time from now on gives what pruning the user's list in memory gives
(`Mirrors.agree`).

This rests on the order of the entries.  They are stamped by a clock that does
not go back, so those of a user are in the order of their times, and pruning is
a `Retention.keep`.
-/

namespace Ixr.Memory

open LineJournal Retention List Function Codec

/-! ## Pruning -/

/-- The entry is not too old. -/
def live (cfg : Config) (now : Int) (e : Entry) : Bool :=
  decide (cfg.ttl ≤ 0 ∨ timeSub now e.createdAt ≤ cfg.ttl)

/-- The number of entries a user may have. -/
def Config.limit (cfg : Config) : Option Nat :=
  if 0 < cfg.maxPerUser then some cfg.maxPerUser.toNat else none

theorem pruneLocked_eq (cfg : Config) (now : Int) (entries : List Entry) :
    pruneLocked cfg now entries = keep (live cfg) cfg.limit now entries := by
  have hlive : (if 0 < cfg.ttl then entries.filter fun e => timeSub now e.createdAt ≤ cfg.ttl
      else entries) = entries.filter (live cfg now) := by
    split
    · next httl =>
      refine filter_congr fun e _ => ?_
      simp only [live, decide_eq_decide]
      omega
    · next httl =>
      refine (filter_eq_self.mpr fun e _ => ?_).symm
      exact decide_eq_true (Or.inl (by omega))
  rw [pruneLocked, hlive, keep, Config.limit]
  split <;> rfl

variable {now : Int} {cfg : Config} {es : List Entry} {key : String} {s : Entries}

theorem timeSub_le {t u later : Int} (hnow : now ≤ later) (ht : u ≤ t) :
    timeSub now t ≤ timeSub later u := by
  unfold timeSub
  omega

theorem live_of_le {later : Int} {e : Entry} (hle : now ≤ later) (h : live cfg later e = true) :
    live cfg now e = true := by
  have hsub : timeSub now e.createdAt ≤ timeSub later e.createdAt := timeSub_le hle le_rfl
  simp only [live, decide_eq_true_eq] at h ⊢
  omega

theorem live_of_createdAt_le {a b : Entry} (hle : a.createdAt ≤ b.createdAt)
    (h : live cfg now a = true) : live cfg now b = true := by
  have hsub : timeSub now b.createdAt ≤ timeSub now a.createdAt := timeSub_le le_rfl hle
  simp only [live, decide_eq_true_eq] at h ⊢
  omega

/-- The oldest entry comes first. -/
def Sorted (es : List Entry) : Prop := es.Pairwise fun a b => a.createdAt ≤ b.createdAt

/-- In order, pruning can be put off. -/
theorem pruneLocked_pruneLocked {later : Int} (hle : now ≤ later) (h : Sorted es) :
    pruneLocked cfg later (pruneLocked cfg now es) = pruneLocked cfg later es := by
  have hmono : ∀ t u e, t ≤ u → live cfg u e = true → live cfg t e = true :=
    fun _ _ _ => live_of_le
  have hlive : es.Pairwise fun a b => live cfg later a = true → live cfg later b = true :=
    h.imp fun hle => live_of_createdAt_le hle
  simp only [pruneLocked_eq]
  exact keep_keep (live cfg) cfg.limit hmono hle hlive

theorem pruneLocked_append (cfg : Config) (now : Int) (xs ys : List Entry) :
    pruneLocked cfg now (pruneLocked cfg now xs ++ ys) = pruneLocked cfg now (xs ++ ys) := by
  simp only [pruneLocked_eq, keep_append]

theorem pruneLocked_sublist (cfg : Config) (now : Int) (es : List Entry) :
    (pruneLocked cfg now es).Sublist es := by
  rw [pruneLocked_eq]
  exact keep_sublist _ _ now es

/-- Replay drops the expired lines first, which pruning does anyway. -/
theorem loaded_eq (cfg : Config) (es : List Entry) (now : Int) (key : String) :
    loaded cfg es now key = pruneLocked cfg now (ofUser key es) := by
  have hlive : (es.filter fun e => ¬(0 < cfg.ttl ∧ cfg.ttl < timeSub now e.createdAt)) =
      es.filter (live cfg now) := by
    refine filter_congr fun e _ => ?_
    simp only [live, decide_eq_decide]
    omega
  rw [loaded, hlive, ofUser, filter_comm, pruneLocked_eq, keep_filter, pruneLocked_eq, ofUser]

/-! ## The lines of one user -/

theorem mem_ofUser {e : Entry} : e ∈ ofUser key es ↔ e ∈ es ∧ e.userKey = key := by
  rw [ofUser, mem_filter, decide_eq_true_eq]

theorem ofUser_append (key : String) (es es' : List Entry) :
    ofUser key (es ++ es') = ofUser key es ++ ofUser key es' := filter_append ..

theorem ofUser_eq_self (h : ∀ e ∈ es, e.userKey = key) : ofUser key es = es :=
  filter_eq_self.mpr fun e he => decide_eq_true (h e he)

theorem ofUser_eq_nil (h : ∀ e ∈ es, e.userKey ≠ key) : ofUser key es = [] :=
  filter_eq_nil_iff.mpr fun e he => by rw [decide_eq_true_eq]; exact h e he

theorem ofUser_flatMap (hkey : ∀ key, ∀ e ∈ s key, e.userKey = key) (key : String) :
    ∀ {order : List String}, order.Nodup →
    ofUser key (order.flatMap s) = if key ∈ order then s key else []
  | [], _ => rfl
  | k :: order, hnodup => by
    obtain ⟨hk, hnodup⟩ := nodup_cons.mp hnodup
    rw [flatMap_cons, ofUser_append, ofUser_flatMap hkey key hnodup]
    by_cases hkk : key = k
    · subst hkk
      rw [if_neg hk, append_nil, if_pos mem_cons_self, ofUser_eq_self (hkey key)]
    · have hother : ofUser key (s k) = [] := by
        refine ofUser_eq_nil fun e he => ?_
        rw [hkey k e he]
        exact fun h => hkk h.symm
      simp only [hother, nil_append, mem_cons, hkk, false_or]

theorem Ranges.ofUser_flatMap {order : List String} (h : Ranges order s)
    (hkey : ∀ key, ∀ e ∈ s key, e.userKey = key) (key : String) :
    ofUser key (order.flatMap s) = s key := by
  rw [Memory.ofUser_flatMap hkey key h.nodup]
  split
  · rfl
  · next hnot =>
    by_contra hne
    exact hnot (h.mem key fun h => hne h.symm)

/-! ## Memory and journal in step -/

section

variable {β : Type} [DecidableEq β] {c : Codec β Entry} {cfg : Config}

/-- What a store may be opened on at time `now`: an intact journal of entries that were stamped by
a clock that does not go back. -/
structure Sound (c : Codec β Entry) (file : List β) (now : Int) : Prop where
  /-- The scanner sees every line. -/
  intact : Intact c.newline maxLine file
  /-- Rewritten lines are below the limit too. -/
  fits : ∀ e ∈ c.entries maxLine file, c.Fits maxLine e
  /-- A user's lines are in the order of their times. -/
  sorted : ∀ key, Sorted (ofUser key (c.entries maxLine file))
  /-- No line is from the future. -/
  past : ∀ e ∈ c.entries maxLine file, e.createdAt ≤ now

/-- Memory and journal are in step. -/
structure Mirrors (c : Codec β Entry) (cfg : Config) (st : Store β) : Prop where
  sound : Sound c st.file st.now
  /-- What is in memory is in the journal. -/
  sublist : ∀ key, (st.entries key).Sublist (ofUser key (c.entries maxLine st.file))
  /-- From now on, pruning either gives the same. -/
  agree : ∀ key {later}, st.now ≤ later →
    pruneLocked cfg later (ofUser key (c.entries maxLine st.file)) =
      pruneLocked cfg later (st.entries key)

variable {file : List β} {now : Int} {st : Store β} {order : List String} {e : Entry}
  {userKey : String}

theorem Sound.later {later : Int} (h : Sound c file now) (hle : now ≤ later) : Sound c file later :=
  ⟨h.intact, h.fits, h.sorted, fun e he => (h.past e he).trans hle⟩

theorem Mirrors.restart {later : Int} (h : Mirrors c cfg st) (hle : st.now ≤ later)
    {st' : Store β} (hopen : Opens c cfg st.file later st') (key : String) :
    st'.all cfg key later = st.all cfg key later := by
  have hloaded : st'.entries = loaded cfg (c.entries maxLine st.file) later := by
    cases hopen with
    | keep | compact => rfl
  rw [Store.all, hloaded, loaded_eq, pruneLocked_pruneLocked le_rfl (h.sound.sorted key),
    h.agree key hle, Store.all]

theorem Sound.rewrite {now' : Int} (h : Sound c file now) (hle : now ≤ now') {s : Entries}
    (hsub : ∀ key, (s key).Sublist (ofUser key (c.entries maxLine file)))
    (horder : Ranges order s) : Mirrors c cfg ⟨s, c.file (order.flatMap s), now'⟩ := by
  have hmem : ∀ e ∈ order.flatMap s, e ∈ c.entries maxLine file := by
    intro e he
    obtain ⟨key, _, hkey⟩ := mem_flatMap.mp he
    exact (mem_ofUser.mp ((hsub key).mem hkey)).1
  have hkey : ∀ key, ∀ e ∈ s key, e.userKey = key := fun key e he =>
    (mem_ofUser.mp ((hsub key).mem he)).2
  obtain ⟨hintact, hentries⟩ := intact_foldl_append (intact_nil c.newline maxLine)
    fun e he => h.fits e (hmem e he)
  rw [entries_nil, nil_append] at hentries
  have hofUser : ∀ key, ofUser key (c.entries maxLine (c.file (order.flatMap s))) = s key := by
    intro key
    rw [Codec.file, hentries, horder.ofUser_flatMap hkey]
  refine ⟨⟨hintact, ?_, ?_, ?_⟩, fun key => ?_, fun key later _ => ?_⟩
  · intro e he
    rw [Codec.file, hentries] at he
    exact h.fits e (hmem e he)
  · intro key
    rw [hofUser]
    exact (h.sorted key).sublist (hsub key)
  · intro e he
    rw [Codec.file, hentries] at he
    exact (h.past e (hmem e he)).trans hle
  · rw [hofUser]
  · rw [hofUser]

theorem Opens.mirrors (h : Opens c cfg file now st) (hsound : Sound c file now) :
    Mirrors c cfg st := by
  have hsub : ∀ key, (loaded cfg (c.entries maxLine file) now key).Sublist
      (ofUser key (c.entries maxLine file)) := by
    intro key
    rw [loaded_eq]
    exact pruneLocked_sublist cfg now _
  cases h with
  | keep _ _ =>
    refine ⟨hsound, hsub, fun key later hle => ?_⟩
    show _ = pruneLocked cfg later (loaded cfg (c.entries maxLine file) now key)
    rw [loaded_eq, pruneLocked_pruneLocked hle (hsound.sorted key)]
  | compact horder _ => exact hsound.rewrite le_rfl hsub horder

/-! ## One call -/

/-- A call of the runs considered.  The clock does not go back, a saved entry has no time of its own
and its line is below the limit, and the map is ranged over in an order that it has. -/
def Proper (c : Codec β Entry) (cfg : Config) (st : Store β) : Op → Prop
  | .save e stamp now =>
    e.createdAt = zeroTime ∧ st.now ≤ stamp ∧ stamp ≤ now ∧ c.Fits maxLine (stamped cfg e stamp)
  | .recent _ _ now => st.now ≤ now
  | .all _ now => st.now ≤ now
  | .delete userKey entryID order =>
    ∀ entries, st.entries.delete userKey entryID = some entries → Ranges order entries
  | .compactNow times order now =>
    (∀ userKey, st.now ≤ times userKey ∧ times userKey ≤ now) ∧
      Ranges order (st.entries.compact cfg times)

theorem Sound.append {stamp later : Int} (h : Sound c file now) (hfits : c.Fits maxLine e)
    (hnow : now ≤ stamp) (hstamp : e.createdAt = stamp) (hlater : stamp ≤ later) :
    Sound c (c.append file e) later := by
  refine ⟨intact_append h.intact hfits, ?_, ?_, ?_⟩
  · rw [entries_append h.intact hfits]
    intro a ha
    cases mem_append.mp ha with
    | inl hold => exact h.fits a hold
    | inr hnew => rwa [mem_singleton.mp hnew]
  · intro key
    rw [entries_append h.intact hfits, ofUser_append]
    refine pairwise_append.mpr ⟨h.sorted key, ?_, ?_⟩
    · exact (pairwise_singleton _ e).sublist filter_sublist
    · -- the new line is the last to be stamped
      intro a ha b hb
      rw [mem_singleton.mp (mem_ofUser.mp hb).1, hstamp]
      exact (h.past a (mem_ofUser.mp ha).1).trans hnow
  · rw [entries_append h.intact hfits]
    intro a ha
    cases mem_append.mp ha with
    | inl hold => exact (h.past a hold).trans (hnow.trans hlater)
    | inr hnew =>
      rw [mem_singleton.mp hnew, hstamp]
      exact hlater

theorem Mirrors.prune (h : Mirrors c cfg st) (hle : st.now ≤ now) :
    Mirrors c cfg { st with entries := st.entries.prune cfg userKey now, now := now } := by
  refine ⟨h.sound.later hle, fun key => ?_, fun key later hlater => ?_⟩
  · show (update st.entries userKey _ key).Sublist _
    by_cases hk : key = userKey
    · rw [hk, update_self]
      exact (pruneLocked_sublist cfg now _).trans (h.sublist userKey)
    · rw [update_of_ne hk]
      exact h.sublist key
  · show _ = pruneLocked cfg later (update st.entries userKey _ key)
    have hle' : st.now ≤ later := hle.trans hlater
    by_cases hk : key = userKey
    · have hsorted : Sorted (st.entries userKey) :=
        (h.sound.sorted userKey).sublist (h.sublist userKey)
      rw [hk, update_self, pruneLocked_pruneLocked hlater hsorted]
      exact h.agree userKey hle'
    · rw [update_of_ne hk]
      exact h.agree key hle'

theorem Mirrors.save (h : Mirrors c cfg st) {stamp : Int}
    (hproper : Proper c cfg st (.save e stamp now)) :
    Mirrors c cfg (st.step c cfg (.save e stamp now)) := by
  obtain ⟨hzero, hstamp, hnow, hfits⟩ := hproper
  have hcreated : (stamped cfg e stamp).createdAt = stamp := by
    simp only [stamped, hzero, if_true]
    split <;> rfl
  generalize hx : stamped cfg e stamp = x at hfits hcreated
  have hentries := entries_append h.sound.intact hfits
  have hsound := h.sound.append hfits hstamp hcreated hnow
  have hself : ofUser x.userKey [x] = [x] := ofUser_eq_self (by simp)
  have hother : ∀ {key}, key ≠ x.userKey → ofUser key [x] = [] := fun hk =>
    ofUser_eq_nil fun a ha => by rw [mem_singleton.mp ha]; exact hk.symm
  simp only [Store.step, hx]
  refine ⟨hsound, fun key => ?_, fun key later hlater => ?_⟩
  · show (update st.entries x.userKey _ key).Sublist _
    rw [hentries, ofUser_append]
    by_cases hk : key = x.userKey
    · rw [hk, update_self, hself]
      exact (pruneLocked_sublist cfg now _).trans ((h.sublist x.userKey).append_right [x])
    · rw [update_of_ne hk, hother hk, append_nil]
      exact h.sublist key
  · show _ = pruneLocked cfg later (update st.entries x.userKey _ key)
    have hle : st.now ≤ later := hstamp.trans (hnow.trans hlater)
    rw [hentries, ofUser_append]
    by_cases hk : key = x.userKey
    · have hsorted : Sorted (st.entries x.userKey ++ [x]) := by
        refine (hsound.sorted x.userKey).sublist ?_
        rw [hentries, ofUser_append, hself]
        exact (h.sublist x.userKey).append_right [x]
      rw [hk, update_self, hself, pruneLocked_pruneLocked hlater hsorted,
        ← pruneLocked_append, h.agree x.userKey hle, pruneLocked_append]
    · rw [update_of_ne hk, hother hk, append_nil]
      exact h.agree key hle

theorem delete_sublist {s s' : Entries} {entryID : String}
    (h : s.delete userKey entryID = some s') (key : String) : (s' key).Sublist (s key) := by
  rw [Entries.delete] at h
  split at h
  · cases h
    by_cases hk : key = userKey
    · rw [hk, update_self]
      exact eraseP_sublist
    · rw [update_of_ne hk]
  · cases h

theorem Mirrors.delete (h : Mirrors c cfg st) {entryID : String}
    (hproper : Proper c cfg st (.delete userKey entryID order)) :
    Mirrors c cfg (st.step c cfg (.delete userKey entryID order)) := by
  rw [Store.step]
  cases hdelete : st.entries.delete userKey entryID with
  | none => exact h
  | some entries =>
    exact h.sound.rewrite le_rfl
      (fun key => (delete_sublist hdelete key).trans (h.sublist key)) (hproper entries hdelete)

theorem Mirrors.compactNow (h : Mirrors c cfg st) {times : String → Int} (hle : st.now ≤ now)
    (horder : Ranges order (st.entries.compact cfg times)) :
    Mirrors c cfg (st.step c cfg (.compactNow times order now)) :=
  h.sound.rewrite hle
    (fun key => (pruneLocked_sublist cfg (times key) _).trans (h.sublist key)) horder

/-! ## A run -/

/-- The stores reached from an opened one. -/
inductive Reached (c : Codec β Entry) (cfg : Config) : Store β → Prop where
  | opened {file : List β} {now : Int} {st : Store β} :
      Opens c cfg file now st → Sound c file now → Reached c cfg st
  | step {st : Store β} {op : Op} :
      Reached c cfg st → Proper c cfg st op → Reached c cfg (st.step c cfg op)

theorem Reached.mirrors (h : Reached c cfg st) : Mirrors c cfg st := by
  induction h with
  | opened hopen hsound => exact hopen.mirrors hsound
  | @step st op _ hproper ih =>
    cases op with
    | save e stamp now => exact ih.save hproper
    | recent | all => exact ih.prune hproper
    | delete userKey entryID order => exact ih.delete hproper
    | compactNow times order now =>
      have hle : st.now ≤ now := (hproper.1 "").1.trans (hproper.1 "").2
      exact ih.compactNow hle hproper.2

/-- A store opened on the journal at any later time has the entries that the old store would have
then, in the same order. -/
theorem restart_all_eq {st : Store β} (h : Reached c cfg st) {later : Int} (hle : st.now ≤ later)
    {st' : Store β} (hopen : Opens c cfg st.file later st') (userKey : String) :
    st'.all cfg userKey later = st.all cfg userKey later :=
  h.mirrors.restart hle hopen userKey

end

/-! ## Two facts, one of them deleted -/

def anHour : Config := ⟨3600000000000, 50, fun t => toString t⟩

def emptyStore : Store (Bool ⊕ Entry) := ⟨loaded anHour [] 0, [], 0⟩

def nameFact : Entry :=
  { id := "m1", userKey := "acme:u1", category := "name", content := "User's name is Arun" }

def cityFact : Entry :=
  { id := "m2", userKey := "acme:u1", category := "location", content := "User lives in Pune" }

def twoFacts : Store (Bool ⊕ Entry) :=
  (emptyStore.step (symbols Entry) anHour (.save nameFact 1 1)).step
    (symbols Entry) anHour (.save cityFact 2 2)

def oneFact : Store (Bool ⊕ Entry) :=
  twoFacts.step (symbols Entry) anHour (.delete "acme:u1" "m1" ["acme:u1"])

def reopenedStore : Store (Bool ⊕ Entry) :=
  ⟨loaded anHour ((symbols Entry).entries maxLine oneFact.file) 60000000000, oneFact.file,
    60000000000⟩

theorem ranges_singleton (h : ∀ k, k ≠ key → s k = []) : Ranges [key] s :=
  ⟨nodup_singleton key, fun k hk => by
    by_contra hne
    exact hk (h k fun heq => hne (mem_singleton.mpr heq))⟩

theorem emptyStore_entries (key : String) : emptyStore.entries key = [] := by
  show loaded anHour [] 0 key = []
  rw [loaded_eq]
  rfl

theorem opens_emptyStore : Opens (symbols Entry) anHour [] 0 emptyStore := by
  have hranges : Ranges [] (loaded anHour ((symbols Entry).entries maxLine []) 0) :=
    ⟨nodup_nil, fun key hne => absurd (emptyStore_entries key) hne⟩
  exact .keep hranges (Nat.le_refl 0)

theorem reached_twoFacts : Reached (symbols Entry) anHour twoFacts := by
  have hfits := symbols_fits (ε := Entry) (by decide : 1 < maxLine)
  have hempty : Reached (symbols Entry) anHour emptyStore :=
    .opened opens_emptyStore
      ⟨intact_nil _ _, fun e he => absurd he not_mem_nil, fun _ => List.Pairwise.nil,
        fun e he => absurd he not_mem_nil⟩
  refine .step (.step hempty ?_) ?_
  · exact ⟨rfl, by decide, by decide, hfits _⟩
  · exact ⟨rfl, by decide, by decide, hfits _⟩

theorem twoFacts_entries (h : key ≠ "acme:u1") : twoFacts.entries key = [] := by
  simp only [twoFacts, Store.step, Entries.save]
  rw [update_of_ne (by exact h), update_of_ne (by exact h)]
  exact emptyStore_entries key

theorem reached_oneFact : Reached (symbols Entry) anHour oneFact := by
  refine .step reached_twoFacts fun entries hdelete => ranges_singleton fun k hk => ?_
  have hsub := delete_sublist hdelete k
  rw [twoFacts_entries hk] at hsub
  exact sublist_nil.mp hsub

theorem opens_reopenedStore :
    Opens (symbols Entry) anHour oneFact.file 60000000000 reopenedStore := by
  have hentries : (symbols Entry).entries maxLine oneFact.file =
      [{ cityFact with createdAt := 2 }] := by decide
  have hranges : Ranges ["acme:u1"]
      (loaded anHour ((symbols Entry).entries maxLine oneFact.file) 60000000000) := by
    refine ranges_singleton fun k hk => ?_
    rw [loaded_eq, hentries, ofUser_eq_nil]
    · rfl
    · intro e he
      rw [mem_singleton.mp he]
      exact hk.symm
  exact .keep hranges (by decide)

/-- After a restart the deleted fact is still gone and the other one is there. -/
theorem restart_keeps_deleted :
    oneFact.all anHour "acme:u1" 60000000000 = [{ cityFact with createdAt := 2 }] ∧
      reopenedStore.all anHour "acme:u1" 60000000000 =
        oneFact.all anHour "acme:u1" 60000000000 :=
  ⟨by decide, restart_all_eq reached_oneFact (by decide) opens_reopenedStore "acme:u1"⟩

end Ixr.Memory
