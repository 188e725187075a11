import Mathlib

/-!
# UTF-8 text as bytes

A text is a list of bytes.  It is *valid* if it is the encoding of some
characters.  `decode` reads any list of bytes, with the replacement character in
place of each byte that starts no encoding, so a text is read back from it
unchanged exactly if it is valid (`encode_decode_iff`).

A valid text may be taken apart at an ASCII byte (`valid_append_cons_iff`), and
it may be cut before a byte exactly if the byte continues no character
(`valid_take_iff`).

`trim` drops the characters of a class at both ends.
-/

namespace Utf8

open List

/-- A byte slice. -/
abbrev Bytes := List UInt8

/-! ## Encoding -/

/-- Characters in UTF-8. -/
def encode (cs : List Char) : Bytes := cs.flatMap String.utf8EncodeChar

/-- The bytes of a string. -/
def ofString (s : String) : Bytes := s.toByteArray.data.toList

@[simp] theorem encode_nil : encode [] = [] := rfl

@[simp] theorem encode_cons (c : Char) (cs : List Char) :
    encode (c :: cs) = String.utf8EncodeChar c ++ encode cs := flatMap_cons

@[simp] theorem encode_append (cs ds : List Char) : encode (cs ++ ds) = encode cs ++ encode ds :=
  flatMap_append

theorem ofString_ofList (cs : List Char) : ofString (String.ofList cs) = encode cs := by
  rw [ofString, String.toByteArray_ofList, utf8Encode, data_toByteArray, toList_toArray, encode]

theorem ofString_eq (s : String) : ofString s = encode s.toList := by
  rw [← ofString_ofList, String.ofList_toList]

theorem ofString_append (s t : String) : ofString (s ++ t) = ofString s ++ ofString t := by
  rw [ofString_eq, ofString_eq, ofString_eq, String.toList_append, encode_append]

/-- The byte goes on with a character that an earlier byte began. -/
def Continues (b : UInt8) : Prop := 128 ≤ b.toNat ∧ b.toNat < 192

instance : DecidablePred Continues := fun _ => inferInstanceAs (Decidable (_ ∧ _))

/-- The first byte of an encoding continues nothing, the others do, and there are none after an
ASCII byte. -/
theorem utf8EncodeChar_eq_cons (c : Char) :
    ∃ b bs, String.utf8EncodeChar c = b :: bs ∧ ¬ Continues b ∧ (∀ x ∈ bs, Continues x) ∧
      (b.toNat < 128 → bs = []) := by
  have hone : ∀ v ≤ 127, ¬ Continues (UInt8.ofNat v) := by
    intro v hv
    rw [Continues, UInt8.toNat_ofNat']
    omega
  have hmore : ∀ v, Continues (UInt8.ofNat (v % 64 + 128)) := by
    intro v
    rw [Continues, UInt8.toNat_ofNat']
    omega
  have hlead : ∀ v lead, v < 32 → 192 ≤ lead → v + lead < 256 →
      192 ≤ (UInt8.ofNat (v + lead)).toNat := by
    intro v lead _ _ _
    rw [UInt8.toNat_ofNat']
    omega
  have hfirst : ∀ (b : UInt8) (bs : Bytes), 192 ≤ b.toNat → (∀ x ∈ bs, Continues x) →
      ∃ b' bs', b :: bs = b' :: bs' ∧ ¬ Continues b' ∧ (∀ x ∈ bs', Continues x) ∧
        (b'.toNat < 128 → bs' = []) := by
    intro b bs hb hbs
    refine ⟨b, bs, rfl, fun h => ?_, hbs, fun h => ?_⟩
    · exact absurd h.2 (Nat.not_lt.mpr hb)
    · omega
  unfold String.utf8EncodeChar
  dsimp only
  split
  · next h => exact ⟨_, [], rfl, hone _ h, forall_mem_nil _, fun _ => rfl⟩
  · split
    · refine hfirst _ _ (hlead _ 192 (by omega) (by omega) (by omega)) ?_
      exact forall_mem_singleton.mpr (hmore _)
    · split
      · refine hfirst _ _ (hlead _ 224 (by omega) (by omega) (by omega)) ?_
        exact forall_mem_cons.mpr ⟨hmore _, forall_mem_singleton.mpr (hmore _)⟩
      · refine hfirst _ _ (hlead _ 240 (by omega) (by omega) (by omega)) ?_
        exact forall_mem_cons.mpr
          ⟨hmore _, forall_mem_cons.mpr ⟨hmore _, forall_mem_singleton.mpr (hmore _)⟩⟩

variable {b : UInt8} {c : Char} {bs ds : Bytes}

theorem utf8EncodeChar_ofNat (h : b.toNat < 128) :
    String.utf8EncodeChar (Char.ofNat b.toNat) = [b] := by
  have hval : (Char.ofNat b.toNat).val.toNat = b.toNat := by
    have hvalid : b.toNat.isValidChar := Or.inl (by omega)
    exact (Char.toNat_ofNat b.toNat).trans (if_pos hvalid)
  unfold String.utf8EncodeChar
  dsimp only
  rw [hval, if_pos (by omega), UInt8.ofNat_toNat]

theorem utf8EncodeChar_eq_singleton (hmem : b ∈ String.utf8EncodeChar c) (h : b.toNat < 128) :
    String.utf8EncodeChar c = [b] := by
  obtain ⟨b', bs, heq, -, hmore, hone⟩ := utf8EncodeChar_eq_cons c
  rw [heq] at hmem
  rcases mem_cons.mp hmem with rfl | hmem
  · rw [heq, hone h]
  · have hcont := (hmore b hmem).1
    omega

/-! ## Decoding -/

/-- The character whose encoding starts the text. -/
def decodeRune? (bs : Bytes) : Option Char := bs.toByteArray.utf8DecodeChar? 0

theorem decodeRune?_append (c : Char) (bs : Bytes) :
    decodeRune? (String.utf8EncodeChar c ++ bs) = some c := by
  rw [decodeRune?, toByteArray_append]
  exact ByteArray.utf8DecodeChar?_utf8EncodeChar_append

theorem eq_append_of_decodeRune? (h : decodeRune? bs = some c) :
    bs = String.utf8EncodeChar c ++ bs.drop c.utf8Size := by
  obtain ⟨l, hl⟩ := ByteArray.exists_of_utf8DecodeChar?_eq_some h
  have hlist : bs = String.utf8EncodeChar c ++ l.data.toList := by
    have hdata := congrArg (fun b : ByteArray => b.data.toList) hl
    simpa using hdata
  have hdrop : bs.drop c.utf8Size = l.data.toList := by
    rw [hlist, ← String.length_utf8EncodeChar, drop_left]
  rw [hdrop]
  exact hlist

/-- The characters of a text.  A byte that starts no encoding is read as the replacement
character.  The number bounds the length of the text. -/
def decodeLoop : Nat → Bytes → List Char
  | 0, _ => []
  | _ + 1, [] => []
  | n + 1, b :: bs =>
    match decodeRune? (b :: bs) with
    | some c => c :: decodeLoop n ((b :: bs).drop c.utf8Size)
    | none => Char.ofNat 0xFFFD :: decodeLoop n bs

/-- The characters of bytes. -/
def decode (bs : Bytes) : List Char := decodeLoop bs.length bs

theorem decodeLoop_encode (cs : List Char) {n : Nat} (h : (encode cs).length ≤ n) :
    decodeLoop n (encode cs) = cs := by
  induction cs generalizing n with
  | nil => cases n <;> rfl
  | cons c cs ih =>
    obtain ⟨b, bs, heq, -⟩ := utf8EncodeChar_eq_cons c
    have hrune := decodeRune?_append c (encode cs)
    have hdrop : (String.utf8EncodeChar c ++ encode cs).drop c.utf8Size = encode cs := by
      rw [← String.length_utf8EncodeChar, drop_left]
    rw [encode_cons] at h ⊢
    rw [heq, cons_append] at h hrune hdrop ⊢
    cases n with
    | zero => cases h
    | succ n =>
      have hlen : (encode cs).length ≤ n := by
        simp only [length_cons, length_append] at h
        omega
      rw [decodeLoop, hrune]
      show c :: decodeLoop n ((b :: (bs ++ encode cs)).drop c.utf8Size) = c :: cs
      rw [hdrop, ih hlen]

@[simp] theorem decode_encode (cs : List Char) : decode (encode cs) = cs :=
  decodeLoop_encode cs (Nat.le_refl _)

/-- The bytes are valid UTF-8. -/
def Valid (bs : Bytes) : Prop := ∃ cs, bs = encode cs

/-- A text is written back as it was read exactly if it is valid. -/
theorem encode_decode_iff : encode (decode bs) = bs ↔ Valid bs := by
  constructor
  · intro h
    exact ⟨decode bs, h.symm⟩
  · rintro ⟨cs, rfl⟩
    rw [decode_encode]

instance : DecidablePred Valid := fun _ => decidable_of_iff _ encode_decode_iff

/-! ## Valid texts -/

theorem valid_nil : Valid [] := ⟨[], rfl⟩

theorem valid_encode (cs : List Char) : Valid (encode cs) := ⟨cs, rfl⟩

theorem valid_ofString (s : String) : Valid (ofString s) := ⟨s.toList, ofString_eq s⟩

theorem Valid.append (hb : Valid bs) (hd : Valid ds) : Valid (bs ++ ds) := by
  obtain ⟨cs, rfl⟩ := hb
  obtain ⟨es, rfl⟩ := hd
  exact ⟨cs ++ es, (encode_append cs es).symm⟩

theorem valid_utf8EncodeChar_append_iff : Valid (String.utf8EncodeChar c ++ bs) ↔ Valid bs := by
  constructor
  · rintro ⟨cs, h⟩
    have hrune := decodeRune?_append c bs
    rw [h] at hrune
    cases cs with
    | nil => cases hrune
    | cons d cs =>
      rw [encode_cons, decodeRune?_append] at hrune
      cases hrune
      exact ⟨cs, append_cancel_left h⟩
  · intro h
    exact Valid.append ⟨[c], by simp⟩ h

theorem valid_append_cons_iff (h : b.toNat < 128) :
    Valid (bs ++ b :: ds) ↔ Valid bs ∧ Valid ds := by
  constructor
  · rintro ⟨cs, hcs⟩
    induction cs generalizing bs with
    | nil => cases bs <;> cases hcs
    | cons c cs ih =>
      rw [encode_cons] at hcs
      rcases append_eq_append_iff.mp hcs with ⟨rest, hc, hrest⟩ | ⟨rest, hbs, hrest⟩
      · cases rest with
        | nil =>
          rw [nil_append] at hrest
          rw [append_nil] at hc
          obtain ⟨-, hds⟩ := @ih [] hrest
          rw [← hc]
          exact ⟨⟨[c], by simp⟩, hds⟩
        | cons b' rest =>
          obtain ⟨rfl, htail⟩ := List.cons.inj hrest
          have hone := utf8EncodeChar_eq_singleton (c := c) (b := b) (by rw [hc]; simp) h
          rw [hone] at hc
          cases bs with
          | nil =>
            obtain ⟨-, rfl⟩ := List.cons.inj hc
            exact ⟨valid_nil, cs, htail⟩
          | cons x bs =>
            have hlen := congrArg List.length hc
            simp at hlen
      · obtain ⟨hvalid, hds⟩ := @ih rest hrest.symm
        rw [hbs]
        exact ⟨valid_utf8EncodeChar_append_iff.mpr hvalid, hds⟩
  · rintro ⟨hbs, hds⟩
    rw [← singleton_append, ← utf8EncodeChar_ofNat h]
    exact hbs.append (valid_utf8EncodeChar_append_iff.mpr hds)

theorem Valid.of_append (h : Valid (bs ++ ds)) (hds : ∀ b ∈ ds, b.toNat < 128) : Valid bs := by
  cases ds with
  | nil => rwa [append_nil] at h
  | cons b ds => exact ((valid_append_cons_iff (hds b mem_cons_self)).mp h).1

/-- A valid text may be cut exactly before a byte that continues nothing. -/
theorem valid_take_iff (h : Valid bs) {n : Nat} (hn : n < bs.length) :
    Valid (bs.take n) ↔ ¬ Continues bs[n] := by
  obtain ⟨cs, rfl⟩ := h
  induction cs generalizing n with
  | nil => cases hn
  | cons c cs ih =>
    obtain ⟨b, rest, heq, hfirst, hmore, -⟩ := utf8EncodeChar_eq_cons c
    simp only [encode_cons] at hn ⊢
    by_cases hlen : n < (String.utf8EncodeChar c).length
    · rw [take_append_of_le_length hlen.le, getElem_append_left hlen]
      cases n with
      | zero =>
        simp only [heq, take_zero, getElem_cons_zero]
        exact iff_of_true valid_nil hfirst
      | succ n =>
        have hbyte : Continues (String.utf8EncodeChar c)[n + 1] := by
          simp only [heq, getElem_cons_succ]
          exact hmore _ (getElem_mem _)
        refine iff_of_false ?_ (not_not_intro hbyte)
        -- the cut would be read as another character than the whole
        rintro ⟨ds, hds⟩
        cases ds with
        | nil =>
          rw [heq] at hds
          cases hds
        | cons d ds =>
          have hwhole := take_append_drop (n + 1) (String.utf8EncodeChar c)
          rw [hds, encode_cons, append_assoc] at hwhole
          have hd := decodeRune?_append d
            (encode ds ++ (String.utf8EncodeChar c).drop (n + 1))
          have hc := decodeRune?_append c []
          rw [append_nil] at hc
          rw [hwhole, hc] at hd
          cases hd
          have htake := congrArg List.length hds
          rw [length_take, encode_cons, length_append] at htake
          omega
    · have hge : (String.utf8EncodeChar c).length ≤ n := Nat.le_of_not_lt hlen
      have hrest : n - (String.utf8EncodeChar c).length < (encode cs).length := by
        rw [length_append] at hn
        omega
      rw [take_append, take_of_length_le hge, valid_utf8EncodeChar_append_iff,
        ih hrest, getElem_append_right hge]

theorem ofNat_mem_of_mem_encode {cs : List Char} (hmem : b ∈ encode cs) (h : b.toNat < 128) :
    Char.ofNat b.toNat ∈ cs := by
  obtain ⟨c, hc, hb⟩ := mem_flatMap.mp hmem
  have hone := utf8EncodeChar_eq_singleton hb h
  have hrune := decodeRune?_append c []
  rw [hone, ← utf8EncodeChar_ofNat h, decodeRune?_append] at hrune
  cases hrune
  exact hc

/-! ## Trimming -/

section

variable (p : Char → Bool)

/-- Only characters to trim. -/
def Blank (bs : Bytes) : Prop := ∃ cs : List Char, (∀ c ∈ cs, p c = true) ∧ bs = encode cs

/-- What follows the characters of the class at the start.  The number bounds the length of the
text. -/
def trimStartLoop : Nat → Bytes → Bytes
  | 0, bs => bs
  | n + 1, bs =>
    match decodeRune? bs with
    | some c => if p c then trimStartLoop n (bs.drop c.utf8Size) else bs
    | none => bs

/-- Trims at the start. -/
def trimStart (bs : Bytes) : Bytes := trimStartLoop p bs.length bs

/-- Trims at the end. -/
def trimEnd : Bytes → Bytes
  | [] => []
  | b :: bs => if trimStart p (b :: bs) = [] then [] else b :: trimEnd bs

/-- Trims at both ends. -/
def trim (bs : Bytes) : Bytes := trimEnd p (trimStart p bs)

variable {p}

theorem blank_nil : Blank p [] := ⟨[], forall_mem_nil _, rfl⟩

theorem Blank.append (hb : Blank p bs) (hd : Blank p ds) : Blank p (bs ++ ds) := by
  obtain ⟨cs, hcs, rfl⟩ := hb
  obtain ⟨es, hes, rfl⟩ := hd
  exact ⟨cs ++ es, forall_mem_append.mpr ⟨hcs, hes⟩, (encode_append cs es).symm⟩

theorem blank_utf8EncodeChar (h : p c = true) : Blank p (String.utf8EncodeChar c) :=
  ⟨[c], by simpa using h, by simp⟩

theorem Blank.notMem (h : Blank p bs) (hb : b.toNat < 128) (hp : p (Char.ofNat b.toNat) = false) :
    b ∉ bs := by
  obtain ⟨cs, hcs, rfl⟩ := h
  intro hmem
  have htrue := hcs _ (ofNat_mem_of_mem_encode hmem hb)
  rw [hp] at htrue
  cases htrue

theorem exists_trimStartLoop (n : Nat) (bs : Bytes) :
    ∃ start, Blank p start ∧ bs = start ++ trimStartLoop p n bs := by
  induction n generalizing bs with
  | zero => exact ⟨[], blank_nil, rfl⟩
  | succ n ih =>
    rw [trimStartLoop]
    split
    · next c hc =>
      split
      · next hp =>
        obtain ⟨start, hstart, hrest⟩ := ih (bs.drop c.utf8Size)
        refine ⟨String.utf8EncodeChar c ++ start, (blank_utf8EncodeChar hp).append hstart, ?_⟩
        rw [append_assoc, ← hrest]
        exact eq_append_of_decodeRune? hc
      · exact ⟨[], blank_nil, rfl⟩
    · exact ⟨[], blank_nil, rfl⟩

theorem exists_trimStart (bs : Bytes) : ∃ start, Blank p start ∧ bs = start ++ trimStart p bs :=
  exists_trimStartLoop bs.length bs

theorem trimStartLoop_fuel {n m : Nat} (hn : bs.length ≤ n) (hm : bs.length ≤ m) :
    trimStartLoop p n bs = trimStartLoop p m bs := by
  induction n generalizing m bs with
  | zero =>
    obtain rfl := eq_nil_of_length_eq_zero (Nat.le_zero.mp hn)
    cases m <;> rfl
  | succ n ih =>
    cases m with
    | zero =>
      obtain rfl := eq_nil_of_length_eq_zero (Nat.le_zero.mp hm)
      rfl
    | succ m =>
      rw [trimStartLoop, trimStartLoop]
      cases decodeRune? bs with
      | none => rfl
      | some c =>
        have hsize := c.utf8Size_pos
        have hlen : (bs.drop c.utf8Size).length ≤ n ∧ (bs.drop c.utf8Size).length ≤ m := by
          rw [length_drop]
          omega
        show (if p c = true then _ else bs) = if p c = true then _ else bs
        rw [ih hlen.1 hlen.2]

theorem trimStart_utf8EncodeChar_append (h : p c = true) (bs : Bytes) :
    trimStart p (String.utf8EncodeChar c ++ bs) = trimStart p bs := by
  obtain ⟨b, rest, heq, -⟩ := utf8EncodeChar_eq_cons c
  have hrune := decodeRune?_append c bs
  have hdrop : (String.utf8EncodeChar c ++ bs).drop c.utf8Size = bs := by
    rw [← String.length_utf8EncodeChar, drop_left]
  rw [heq, cons_append] at hrune hdrop ⊢
  rw [trimStart, length_cons, trimStartLoop, hrune]
  show (if p c = true then _ else _) = _
  rw [if_pos h, hdrop, trimStart]
  exact trimStartLoop_fuel (by simp) (Nat.le_refl _)

theorem Blank.trimStart_append {start : Bytes} (h : Blank p start) (bs : Bytes) :
    trimStart p (start ++ bs) = trimStart p bs := by
  obtain ⟨cs, hcs, rfl⟩ := h
  induction cs with
  | nil => rfl
  | cons c cs ih =>
    obtain ⟨hc, hrest⟩ := forall_mem_cons.mp hcs
    rw [encode_cons, append_assoc, trimStart_utf8EncodeChar_append hc, ih hrest]

theorem Blank.trimStart_eq_nil (h : Blank p bs) : trimStart p bs = [] := by
  have happend := h.trimStart_append []
  rwa [append_nil] at happend

theorem blank_iff : Blank p bs ↔ trimStart p bs = [] := by
  constructor
  · intro h
    exact h.trimStart_eq_nil
  · intro h
    obtain ⟨start, hstart, heq⟩ := exists_trimStart (p := p) bs
    rw [h, append_nil] at heq
    rwa [heq]

instance : DecidablePred (Blank p) := fun _ => decidable_of_iff _ blank_iff.symm

theorem exists_trimEnd (bs : Bytes) : ∃ rest, Blank p rest ∧ bs = trimEnd p bs ++ rest := by
  induction bs with
  | nil => exact ⟨[], blank_nil, rfl⟩
  | cons b bs ih =>
    rw [trimEnd]
    split
    · next htrim => exact ⟨b :: bs, blank_iff.mpr htrim, rfl⟩
    · obtain ⟨rest, hrest, heq⟩ := ih
      exact ⟨rest, hrest, by rw [cons_append, ← heq]⟩

theorem exists_trim (bs : Bytes) :
    ∃ start rest, Blank p start ∧ Blank p rest ∧ bs = start ++ (trim p bs ++ rest) := by
  obtain ⟨start, hstart, heq⟩ := exists_trimStart (p := p) bs
  obtain ⟨rest, hrest, htrim⟩ := exists_trimEnd (p := p) (trimStart p bs)
  refine ⟨start, rest, hstart, hrest, ?_⟩
  rw [trim, ← htrim]
  exact heq

end

end Utf8
