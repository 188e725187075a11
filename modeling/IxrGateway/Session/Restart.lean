import IxrGateway.Retention
import IxrGateway.Session.Store

/-!
# Restarting the session store

A new store on the same directory should answer as the old one would have.  It
does as long as memory and journal stay in step (`Mirrors`): a session in memory
is what the journal replays to, and a session that is not in memory is not in
the journal either or has expired there.

Four things break the step.  `Delete` removes a live session from memory only.
`Append` to a session that has expired from memory brings its old lines back.
The two clock readings of one `Append` may give memory and journal different
expiries.  A line that reaches the scanner's limit hides itself and every line
after it.
-/

namespace Ixr.Session

open LineJournal List Codec Function

/-! ## Trimming -/

theorem trim_append_trim (cfg : Config) (xs ys : List Message) :
    trim cfg (trim cfg xs ++ ys) = trim cfg (xs ++ ys) := by
  unfold trim
  split
  · exact Retention.rtake_append_rtake _ xs ys
  · rfl

variable {cfg : Config} {now : Int} {e a : Option SessionEntry} {key : String}

theorem trim_append_of_one (h : cfg.maxTurns = 1) (xs : List Message) (user assistant : Message) :
    trim cfg (xs ++ [user, assistant]) = trim cfg [user, assistant] := by
  simp [trim, h, rtake_eq_reverse_take_reverse]

/-! ## Expiry -/

@[simp] theorem dropExpired_none (now : Int) : dropExpired now none = none := rfl

theorem dropExpired_some (now : Int) (e : SessionEntry) :
    dropExpired now (some e) = if expired e.expiresAt now then none else some e := by
  cases he : expired e.expiresAt now <;> simp [dropExpired, he]

theorem dropExpired_eq_some {a : SessionEntry} :
    dropExpired now e = some a ↔ e = some a ∧ expired a.expiresAt now = false := by
  simp [dropExpired, Option.filter_eq_some_iff]

theorem dropExpired_eq_none :
    dropExpired now e = none ↔ ∀ a, e = some a → expired a.expiresAt now = true := by
  simp [dropExpired, Option.filter_eq_none_iff]

theorem get_eq (s : Sessions) (key : String) (now : Int) :
    s.get key now = (dropExpired now (s key)).map (·.messages) := by
  unfold Sessions.get
  cases hs : s key with
  | none => rfl
  | some e =>
    rw [dropExpired_some]
    cases he : expired e.expiresAt now <;> simp [he]

/-! ## Memory and journal in step -/

/-- What memory holds for a key mirrors what the journal holds for it.  Without a time to live,
nothing in memory expires. -/
def MirrorsEntry (cfg : Config) (now : Int) : Option SessionEntry → Option SessionEntry → Prop
  | some e, a => (∃ all, a = some ⟨all, e.expiresAt⟩ ∧ trim cfg all = e.messages) ∧
      (cfg.ttl ≤ 0 → e.expiresAt = none)
  | none, a => ∀ e, a = some e → expired e.expiresAt now = true

theorem MirrorsEntry.later {later : Int} (h : MirrorsEntry cfg now e a) (hle : now ≤ later) :
    MirrorsEntry cfg later e a := by
  cases e with
  | some e => exact h
  | none => exact fun e he => expired_mono (h e he) hle

theorem MirrorsEntry.dropExpired {later : Int} (h : MirrorsEntry cfg now e a) (hle : now ≤ later) :
    MirrorsEntry cfg later (dropExpired later e) a := by
  cases he : Session.dropExpired later e with
  | some e' =>
    obtain ⟨rfl, _⟩ := dropExpired_eq_some.mp he
    exact h
  | none =>
    cases e with
    | none => exact h.later hle
    | some e' =>
      obtain ⟨⟨all, rfl, _⟩, _⟩ := h
      intro a ha
      cases ha
      exact dropExpired_eq_none.mp he e' rfl

/-- A replay at a later time answers as memory does. -/
theorem MirrorsEntry.replay {later : Int} (h : MirrorsEntry cfg now e a) (hle : now ≤ later) :
    (Session.dropExpired later ((Session.dropExpired later a).map
        fun a => { a with messages := trim cfg a.messages })).map (·.messages) =
      (Session.dropExpired later e).map (·.messages) := by
  cases e with
  | some e =>
    obtain ⟨⟨all, rfl, htrim⟩, _⟩ := h
    rw [dropExpired_some, dropExpired_some]
    cases hx : expired e.expiresAt later <;> simp [dropExpired_some, hx, htrim]
  | none =>
    have hnone : Session.dropExpired later a = none :=
      dropExpired_eq_none.mpr fun e he => expired_mono (h e he) hle
    rw [hnone]
    rfl

/-! ## Accumulation -/

theorem accumulated_concat (es : List DeltaEntry) (e : DeltaEntry) :
    accumulated (es ++ [e]) = accumulate (accumulated es) e := foldl_concat ..

theorem foldl_accumulate_of_notMem : ∀ {es : List DeltaEntry} {acc : Sessions},
    (∀ e ∈ es, e.key ≠ key) → es.foldl accumulate acc key = acc key
  | [], _, _ => rfl
  | e :: es, acc, h => by
    obtain ⟨he, hes⟩ := forall_mem_cons.mp h
    rw [foldl_cons, foldl_accumulate_of_notMem hes]
    exact update_of_ne he.symm _ _

theorem mem_keys_of_accumulated {es : List DeltaEntry} {a : SessionEntry}
    (h : accumulated es key = some a) : key ∈ es.map (·.key) := by
  by_contra hnot
  have hne : ∀ e ∈ es, e.key ≠ key := by
    rintro e he rfl
    exact hnot (mem_map_of_mem he)
  rw [accumulated, foldl_accumulate_of_notMem hne] at h
  cases h

/-- A key's expiry is one of its lines'. -/
theorem expiresAt_of_accumulated {P : Option Int → Prop} {es : List DeltaEntry}
    (hes : ∀ e ∈ es, P e.expiresAt) {a : SessionEntry} (h : accumulated es key = some a) :
    P a.expiresAt := by
  have hfold : ∀ (es : List DeltaEntry) (acc : Sessions),
      (∀ key a, acc key = some a → P a.expiresAt) → (∀ e ∈ es, P e.expiresAt) →
      ∀ key a, es.foldl accumulate acc key = some a → P a.expiresAt := by
    intro es
    induction es with
    | nil => exact fun _ hacc _ => hacc
    | cons e es ih =>
      intro acc hacc hes
      obtain ⟨he, hes⟩ := forall_mem_cons.mp hes
      refine ih _ (fun key a ha => ?_) hes
      by_cases hk : key = e.key
      · subst hk
        rw [accumulate, update_self] at ha
        cases ha
        exact he
      · rw [accumulate, update_of_ne hk] at ha
        exact hacc key a ha
  exact hfold es _ (by simp) hes key a h

theorem accumulated_compact {s : Sessions} {order : List String} (hnodup : order.Nodup)
    (key : String) :
    accumulated (order.map (compactEntry s)) key =
      if key ∈ order then some ((s key).getD {}) else none := by
  have hfold : ∀ (order : List String) (acc : Sessions), order.Nodup → acc key = none →
      (order.map (compactEntry s)).foldl accumulate acc key =
        if key ∈ order then some ((s key).getD {}) else none := by
    intro order
    induction order with
    | nil =>
      intro acc _ hacc
      simpa using hacc
    | cons k order ih =>
      intro acc hnodup hacc
      obtain ⟨hk, hnodup⟩ := nodup_cons.mp hnodup
      rw [map_cons, foldl_cons]
      by_cases hkey : key = k
      · subst hkey
        have hne : ∀ e ∈ order.map (compactEntry s), e.key ≠ key := by
          intro e he
          obtain ⟨k', hk', rfl⟩ := mem_map.mp he
          rintro rfl
          exact hk hk'
        rw [foldl_accumulate_of_notMem hne, if_pos mem_cons_self]
        simp [accumulate, compactEntry, hacc]
      · have hacc' : accumulate acc (compactEntry s k) key = none := by
          rw [accumulate]
          exact (update_of_ne hkey _ _).trans hacc
        rw [ih _ hnodup hacc']
        simp [hkey]
  exact hfold order _ hnodup rfl

section

variable {β : Type} [DecidableEq β] {c : Codec β DeltaEntry} {cfg : Config}

/-- Memory and journal are in step. -/
structure Mirrors (c : Codec β DeltaEntry) (cfg : Config) (st : Store β) : Prop where
  /-- The scanner sees every line. -/
  intact : Intact c.newline maxLine st.file
  /-- Each key agrees. -/
  entry : ∀ key, MirrorsEntry cfg st.now (st.sessions key)
    (accumulated (c.entries maxLine st.file) key)

variable {st : Store β} {es : List DeltaEntry} {now : Int} {key : String}

theorem Mirrors.restart (h : Mirrors c cfg st) {later : Int} (hle : st.now ≤ later)
    {st' : Store β} (hopen : Opens c cfg st.file later st') (key : String) :
    st'.sessions.get key later = st.sessions.get key later := by
  have hloaded : st'.sessions = loaded cfg (c.entries maxLine st.file) later := by
    cases hopen with
    | keep | compact => rfl
  rw [get_eq, get_eq, hloaded]
  exact (h.entry key).replay hle

/-! ## Opening a store -/

/-- A store that never expires sessions finds no expiry in its journal. -/
def Lasting (cfg : Config) (es : List DeltaEntry) : Prop :=
  cfg.ttl ≤ 0 → ∀ e ∈ es, e.expiresAt = none

theorem loaded_lasting (h : Lasting cfg es) {e : SessionEntry}
    (he : loaded cfg es now key = some e) (httl : cfg.ttl ≤ 0) : e.expiresAt = none := by
  obtain ⟨a, ha, rfl⟩ := Option.map_eq_some_iff.mp he
  have hexp := expiresAt_of_accumulated (P := fun t => t = none) (h httl)
    (dropExpired_eq_some.mp ha).1
  exact hexp

theorem loaded_mirrors (h : Lasting cfg es) (now : Int) (key : String) :
    MirrorsEntry cfg now (loaded cfg es now key) (accumulated es key) := by
  cases hl : loaded cfg es now key with
  | none => exact dropExpired_eq_none.mp (Option.map_eq_none_iff.mp hl)
  | some e =>
    refine ⟨?_, loaded_lasting h hl⟩
    obtain ⟨a, ha, rfl⟩ := Option.map_eq_some_iff.mp hl
    exact ⟨a.messages, (dropExpired_eq_some.mp ha).1, rfl⟩

theorem mem_loadedKeys : key ∈ loadedKeys cfg es now ↔ (loaded cfg es now key).isSome := by
  unfold loadedKeys
  rw [mem_filter, mem_dedup, and_iff_right_iff_imp]
  intro h
  obtain ⟨e, he⟩ := Option.isSome_iff_exists.mp h
  obtain ⟨a, ha, _⟩ := Option.map_eq_some_iff.mp he
  exact mem_keys_of_accumulated (dropExpired_eq_some.mp ha).1

theorem compact_mirrors (h : Lasting cfg es) (now : Int) {order : List String}
    (horder : order.Perm (loadedKeys cfg es now)) (key : String) :
    MirrorsEntry cfg now (loaded cfg es now key)
      (accumulated (order.map (compactEntry (loaded cfg es now))) key) := by
  have hnodup : order.Nodup := horder.nodup_iff.mpr ((nodup_dedup _).filter _)
  simp only [accumulated_compact hnodup, horder.mem_iff, mem_loadedKeys]
  cases hl : loaded cfg es now key with
  | none => exact fun _ h => by cases h
  | some e =>
    refine ⟨?_, loaded_lasting h hl⟩
    obtain ⟨a, _, rfl⟩ := Option.map_eq_some_iff.mp hl
    have htrim := trim_append_trim cfg a.messages []
    rw [append_nil, append_nil] at htrim
    exact ⟨_, rfl, htrim⟩

/-- What a store may be opened on: an intact journal, whose lines fit even when compacted. -/
structure Sound (c : Codec β DeltaEntry) (cfg : Config) (file : List β) (now : Int) : Prop where
  intact : Intact c.newline maxLine file
  compact : ∀ key ∈ loadedKeys cfg (c.entries maxLine file) now,
    c.Fits maxLine (compactEntry (loaded cfg (c.entries maxLine file) now) key)
  lasting : Lasting cfg (c.entries maxLine file)

theorem Opens.mirrors {file : List β} (h : Opens c cfg file now st)
    (hsound : Sound c cfg file now) : Mirrors c cfg st := by
  cases h with
  | keep _ => exact ⟨hsound.intact, loaded_mirrors hsound.lasting now⟩
  | @compact order _ horder =>
    have hfits : ∀ e ∈ order.map (compactEntry (loaded cfg (c.entries maxLine file) now)),
        c.Fits maxLine e := by
      intro e he
      obtain ⟨key, hkey, rfl⟩ := mem_map.mp he
      exact hsound.compact key (horder.mem_iff.mp hkey)
    obtain ⟨hintact, hentries⟩ := intact_foldl_append (intact_nil c.newline maxLine) hfits
    rw [entries_nil, nil_append] at hentries
    refine ⟨hintact, fun key => ?_⟩
    rw [Codec.file, hentries]
    exact compact_mirrors hsound.lasting now horder key

/-! ## One call -/

/-- The calls that keep memory and journal in step, under a clock that does not go back.
`Append` must read the same time twice, its line must fit, and the journal must hold no messages
that memory has lost.  `Delete` may only remove what has expired. -/
def Safe (c : Codec β DeltaEntry) (cfg : Config) (st : Store β) : Op → Prop
  | .append key user assistant now now' =>
    st.now ≤ now ∧ now ≤ now' ∧ (now = now' ∨ cfg.ttl ≤ 0) ∧
      c.Fits maxLine ⟨key, [user, assistant], expiry cfg.ttl now'⟩ ∧
      (st.sessions key ≠ none ∨ cfg.maxTurns = 1 ∨
        ∀ a, accumulated (c.entries maxLine st.file) key = some a → a.messages = [])
  | .delete key => ∀ e, st.sessions key = some e → expired e.expiresAt st.now = true
  | .get _ now => st.now ≤ now
  | .gc now => st.now ≤ now

/-- The journal holds for the key what memory does, once the turn is appended to both. -/
theorem trim_append_eq {e a : Option SessionEntry} (h : MirrorsEntry cfg now e a)
    (hold : e ≠ none ∨ cfg.maxTurns = 1 ∨ ∀ a', a = some a' → a'.messages = [])
    (user assistant : Message) :
    trim cfg ((a.getD {}).messages ++ [user, assistant]) =
      trim cfg ((e.getD {}).messages ++ [user, assistant]) := by
  cases e with
  | some e =>
    obtain ⟨⟨all, rfl, htrim⟩, _⟩ := h
    simp only [Option.getD_some, ← htrim, trim_append_trim]
  | none =>
    cases a with
    | none => rfl
    | some a =>
      rcases hold with hne | hone | hempty
      · exact absurd rfl hne
      · simp only [Option.getD_some, Option.getD_none, nil_append, trim_append_of_one hone]
      · simp [hempty a rfl]

theorem appendTurn_expiresAt {now₀ now' : Int} {e a : Option SessionEntry}
    (h : MirrorsEntry cfg now₀ e a) (htimes : now = now' ∨ cfg.ttl ≤ 0) (user assistant : Message) :
    (appendTurn cfg (e.getD {}) user assistant now).expiresAt = expiry cfg.ttl now' := by
  by_cases httl : 0 < cfg.ttl
  · have heq : now = now' := htimes.resolve_right (not_le.mpr httl)
    simp [appendTurn, expiry, httl, heq]
  · simp only [appendTurn, expiry, httl, if_false]
    cases e with
    | none => rfl
    | some e => exact h.2 (not_lt.mp httl)

theorem Mirrors.of_update {st' : Store β} {sessions : Sessions}
    {v : Option SessionEntry} (hsessions : st'.sessions = update sessions key v)
    (hintact : Intact c.newline maxLine st'.file)
    (hkey : MirrorsEntry cfg st'.now v (accumulated (c.entries maxLine st'.file) key))
    (hother : ∀ k, k ≠ key →
      MirrorsEntry cfg st'.now (sessions k) (accumulated (c.entries maxLine st'.file) k)) :
    Mirrors c cfg st' := by
  refine ⟨hintact, fun k => ?_⟩
  rw [hsessions]
  by_cases hk : k = key
  · rw [hk, update_self]
    exact hkey
  · rw [update_of_ne hk]
    exact hother k hk

theorem Mirrors.append (h : Mirrors c cfg st) {user assistant : Message} {now' : Int}
    (hsafe : Safe c cfg st (.append key user assistant now now')) :
    Mirrors c cfg (st.step c cfg (.append key user assistant now now')) := by
  obtain ⟨hnow, hnow', htimes, hfits, hold⟩ := hsafe
  refine .of_update rfl (intact_append h.intact hfits) ?_ ?_
  · have hexp := appendTurn_expiresAt (h.entry key) htimes user assistant
    simp only [Store.step, entries_append h.intact hfits, accumulated_concat, accumulate,
      update_self]
    refine ⟨⟨_, by rw [hexp], trim_append_eq (h.entry key) hold user assistant⟩, fun httl => ?_⟩
    rw [hexp, expiry, if_neg (not_lt.mpr httl)]
  · intro k hk
    simp only [Store.step, entries_append h.intact hfits, accumulated_concat, accumulate,
      update_of_ne hk]
    exact (h.entry k).later (hnow.trans hnow')

theorem Mirrors.delete (h : Mirrors c cfg st) (hsafe : Safe c cfg st (.delete key)) :
    Mirrors c cfg (st.step c cfg (.delete key)) := by
  refine .of_update rfl h.intact ?_ fun k _ => h.entry k
  have hgone := (h.entry key).dropExpired (le_refl st.now)
  rwa [dropExpired_eq_none.mpr hsafe] at hgone

theorem Mirrors.get (h : Mirrors c cfg st) (hsafe : Safe c cfg st (.get key now)) :
    Mirrors c cfg (st.step c cfg (.get key now)) :=
  .of_update rfl h.intact ((h.entry key).dropExpired hsafe) fun k _ => (h.entry k).later hsafe

theorem Mirrors.gc (h : Mirrors c cfg st) (hsafe : Safe c cfg st (.gc now)) :
    Mirrors c cfg (st.step c cfg (.gc now)) :=
  ⟨h.intact, fun k => (h.entry k).dropExpired hsafe⟩

/-! ## A run -/

/-- The stores reached from an opened one by safe calls. -/
inductive Reached (c : Codec β DeltaEntry) (cfg : Config) : Store β → Prop where
  | opened {file : List β} {now : Int} {st : Store β} :
      Opens c cfg file now st → Sound c cfg file now → Reached c cfg st
  | step {st : Store β} {op : Op} :
      Reached c cfg st → Safe c cfg st op → Reached c cfg (st.step c cfg op)

theorem Reached.mirrors (h : Reached c cfg st) : Mirrors c cfg st := by
  induction h with
  | opened hopen hsound => exact hopen.mirrors hsound
  | @step st op _ hsafe ih =>
    cases op with
    | append key user assistant now now' => exact ih.append hsafe
    | delete key => exact ih.delete hsafe
    | get key now => exact ih.get hsafe
    | gc now => exact ih.gc hsafe

/-- In a run of safe calls, a store opened on the journal at any later time answers every `Get` as
the old store would. -/
theorem restart_get_eq {st : Store β} (h : Reached c cfg st) {later : Int} (hle : st.now ≤ later)
    {st' : Store β} (hopen : Opens c cfg st.file later st') (key : String) :
    st'.sessions.get key later = st.sessions.get key later :=
  h.mirrors.restart hle hopen key

end

/-! ## One turn, kept and deleted -/

def anHour : Config := ⟨3600, 20⟩

def emptyStore : Store (Bool ⊕ DeltaEntry) := ⟨loaded anHour [] 0, [], 0⟩

/-- The first turn of session `acme:s1`. -/
def firstTurn : List Message :=
  [{ role := "user", content := "hi" }, { role := "assistant", content := "hello" }]

def oneTurn : Store (Bool ⊕ DeltaEntry) :=
  emptyStore.step (symbols DeltaEntry) anHour
    (.append "acme:s1" { role := "user", content := "hi" }
      { role := "assistant", content := "hello" } 0 0)

def reopened : Store (Bool ⊕ DeltaEntry) :=
  ⟨loaded anHour ((symbols DeltaEntry).entries maxLine oneTurn.file) 60, oneTurn.file, 60⟩

theorem opens_emptyStore : Opens (symbols DeltaEntry) anHour [] 0 emptyStore :=
  .keep (Nat.le_refl 0)

theorem opens_reopened : Opens (symbols DeltaEntry) anHour oneTurn.file 60 reopened :=
  .keep (by decide)

theorem reached_oneTurn : Reached (symbols DeltaEntry) anHour oneTurn :=
  .step
    (.opened opens_emptyStore
      ⟨intact_nil _ _, fun _ h => (not_mem_nil h).elim,
        fun _ _ h => (not_mem_nil h).elim⟩)
    ⟨le_refl _, le_refl _, .inl rfl, symbols_fits (by decide) _,
      .inr (.inr fun _ h => by cases h)⟩

/-- A store opened on the journal still has the turn. -/
theorem restart_keeps_turn :
    reopened.sessions.get "acme:s1" 60 = some firstTurn ∧
      reopened.sessions.get "acme:s1" 60 = oneTurn.sessions.get "acme:s1" 60 :=
  ⟨by decide, restart_get_eq reached_oneTurn (by decide) opens_reopened "acme:s1"⟩

/-- `Delete` leaves the journal as it is, so a store opened on it has the session again. -/
theorem restart_revives_deleted :
    Opens (symbols DeltaEntry) anHour [] 0 emptyStore ∧
    (oneTurn.step (symbols DeltaEntry) anHour (.delete "acme:s1")).file = oneTurn.file ∧
    Opens (symbols DeltaEntry) anHour oneTurn.file 60 reopened ∧
    (oneTurn.step (symbols DeltaEntry) anHour (.delete "acme:s1")).sessions.get
      "acme:s1" 60 = none ∧
    reopened.sessions.get "acme:s1" 60 = some firstTurn :=
  ⟨opens_emptyStore, rfl, opens_reopened, by decide, by decide⟩

end Ixr.Session
