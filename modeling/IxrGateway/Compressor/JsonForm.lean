import IxrGateway.Lines
import IxrGateway.SchemaDenotation
import IxrGateway.Utf8

/-!
# JSON in a shorter form

`compressJSON` decodes a content that is JSON and writes it without space.  An
array of objects with the same keys is written in *schema form*: the keys once,
then the values of each object on a line.

A decoded value is kept as what `json.Marshal` writes for it: a float by its
literal, a map by its sorted keys.  Decoding loses what a float cannot hold
(`denote_unmarshalAny_iff`).  What was decoded can be read off the result, unless two
schema forms clash (`render_eq_iff`): a header does not tell where its keys end, and
with a line feed in a key it does not tell where the rows begin.  Keys without
separators do not clash (`eq_of_clash`).
-/

namespace Ixr.Compressor

open List JsonText Lines
open Utf8 (Bytes encode decode)

/-! ## Decoding -/

mutual

/-- How deep arrays and objects are nested. -/
def nesting : Value → Nat
  | .array xs => nestingAll xs + 1
  | .object fields => nestingFields fields + 1
  | _ => 0

/-- The largest nesting of the elements. -/
def nestingAll : List Value → Nat
  | [] => 0
  | x :: xs => max (nesting x) (nestingAll xs)

/-- The largest nesting of the fields. -/
def nestingFields : List (String × Value) → Nat
  | [] => 0
  | (_, x) :: fields => max (nesting x) (nestingFields fields)

end

/-- `maxNestingDepth` of `encoding/json`. -/
def maxNestingDepth : Nat := 10000

section

variable {F : Type} (floats : Floats F)

/-- The literal of the float that a number is decoded to. -/
def literal (n : Number) : Option Number := (floats.value n).map floats.format

mutual

/-- Decoding into an `any`. -/
def unmarshalAny : Value → Option Value
  | .null => some .null
  | .bool b => some (.bool b)
  | .number n => (literal floats n).map .number
  | .string s => some (.string s)
  | .array xs => (unmarshalAnys xs).map .array
  | .object fields => (unmarshalFields fields []).map .object

/-- Decoding the elements of an array. -/
def unmarshalAnys : List Value → Option (List Value)
  | [] => some []
  | x :: xs => (unmarshalAny x).bind fun y => (unmarshalAnys xs).map fun ys => y :: ys

/-- Decoding the fields of an object into a map. -/
def unmarshalFields :
    List (String × Value) → List (String × Value) → Option (List (String × Value))
  | [], entries => some entries
  | (key, x) :: fields, entries =>
    (unmarshalAny x).bind fun y => unmarshalFields fields (insertKey key y entries)

end

/-- `json.Unmarshal([]byte(content), &data)`. -/
def unmarshal (content : Bytes) : Option Value :=
  (parse (decode content)).bind fun v =>
    if nesting v ≤ maxNestingDepth then unmarshalAny floats v else none

/-! ## The two forms -/

/-- `jsonArrayDedupMinEntries`. -/
def jsonArrayDedupMinEntries : Nat := 3

/-- An element is an object with exactly these keys. -/
def hasKeys (keys : List String) : Value → Bool
  | .object obj => obj.length == keys.length && keys.all fun k => (obj.lookup k).isSome
  | _ => false

/-- `commonObjectSchema`.  The keys of a decoded object are sorted. -/
def commonObjectSchema : List Value → Option (List String)
  | .object first :: rest =>
    let keys := first.map Prod.fst
    if rest.all (hasKeys keys) then some keys else none
  | _ => none

/-- `obj[k]` of an element, which is nil if there is no such key. -/
def valueAt (item : Value) (k : String) : Value :=
  match item with
  | .object obj => (obj.lookup k).getD .null
  | _ => .null

/-- The line of an element. -/
def renderRow (vals : List Value) : List Char :=
  '[' :: ([',', ' '].intercalate (vals.map print) ++ [']'])

/-- The first line of the schema form. -/
def schemaHeader (keys : List String) : List Char :=
  ['s', 'c', 'h', 'e', 'm', 'a', ':', ' '] ++ [',', ' '].intercalate (keys.map String.toList)

/-- `renderSchemaForm`. -/
def renderSchemaForm (keys : List String) (arr : List Value) : List Char :=
  schemaHeader keys ++ arr.flatMap fun item => '\n' :: renderRow (keys.map (valueAt item))

/-- The keys, if the schema form is used. -/
def schemaKeys : Value → Option (List String)
  | .array arr => if jsonArrayDedupMinEntries ≤ arr.length then commonObjectSchema arr else none
  | _ => none

/-- The elements of an array. -/
def elements : Value → List Value
  | .array arr => arr
  | _ => []

/-- The text for a decoded value. -/
def render (data : Value) : List Char :=
  match schemaKeys data with
  | some keys => renderSchemaForm keys (elements data)
  | none => print data

/-- `compressJSON`. -/
def compressJSON (content : Bytes) : Option Bytes :=
  (unmarshal floats content).bind fun data =>
    let result := encode (render data)
    if content.length ≤ result.length then none else some result

/-! ## What decoding keeps -/

/-- A number that stands for the same after it was decoded and written. -/
def Exact (n : Number) : Prop := ∃ m, literal floats n = some m ∧ m.rat = n.rat

/-- What a number stands for after it was decoded and written. -/
def reading (n : Number) : Json := ((literal floats n).map fun m => .num m.rat).getD .null

theorem reading_eq_iff (n : Number) : reading floats n = .num n.rat ↔ Exact floats n := by
  unfold reading Exact
  cases literal floats n with
  | none | some => simp

variable {floats}

mutual

theorem denote_of_unmarshalAny : (v : Value) → {w : Value} → unmarshalAny floats v = some w →
    denote w = readAny (reading floats) v
  | .null, w, h => by
    rw [unmarshalAny] at h
    cases h
    rw [denote, readAny, readAny]
  | .bool b, w, h => by
    rw [unmarshalAny] at h
    cases h
    rw [denote, readAny, readAny]
  | .number n, w, h => by
    rw [unmarshalAny] at h
    obtain ⟨m, hm, rfl⟩ := Option.map_eq_some_iff.mp h
    rw [denote, readAny, readAny, reading, hm]
    rfl
  | .string s, w, h => by
    rw [unmarshalAny] at h
    cases h
    rw [denote, readAny, readAny]
  | .array xs, w, h => by
    rw [unmarshalAny] at h
    obtain ⟨ys, hys, rfl⟩ := Option.map_eq_some_iff.mp h
    rw [denote, readAny, readAny, denote_of_unmarshalAnys xs hys]
  | .object fields, w, h => by
    rw [unmarshalAny] at h
    obtain ⟨entries, hentries, rfl⟩ := Option.map_eq_some_iff.mp h
    obtain ⟨htidy, hread⟩ := denote_of_unmarshalFields fields hentries (tidy_nil _)
    have hsorted := @readAnyFields_of_tidy (fun n => .num n.rat) [] _ htidy
    rw [map_nil, nil_append] at hsorted
    rw [map_nil] at hread
    rw [denote, readAny, readAny, hsorted, hread]

theorem denote_of_unmarshalAnys : (xs : List Value) → {ys : List Value} →
    unmarshalAnys floats xs = some ys →
    readAnys (fun n => .num n.rat) ys = readAnys (reading floats) xs
  | [], ys, h => by
    rw [unmarshalAnys] at h
    cases h
    rw [readAnys, readAnys]
  | x :: xs, ys, h => by
    rw [unmarshalAnys] at h
    obtain ⟨y, hy, h⟩ := Option.bind_eq_some_iff.mp h
    obtain ⟨zs, hzs, rfl⟩ := Option.map_eq_some_iff.mp h
    have hfirst := denote_of_unmarshalAny x hy
    rw [denote] at hfirst
    rw [readAnys, readAnys, hfirst, denote_of_unmarshalAnys xs hzs]

theorem denote_of_unmarshalFields : (fields : List (String × Value)) →
    {entries out : List (String × Value)} → unmarshalFields floats fields entries = some out →
    Tidy (fun _ => True) entries →
    Tidy (fun _ => True) out ∧
      (out.map fun p => (p.1, readAny (fun n => .num n.rat) p.2)) =
        readAnyFields (reading floats) fields
          (entries.map fun p => (p.1, readAny (fun n => .num n.rat) p.2))
  | [], entries, out, h, htidy => by
    rw [unmarshalFields] at h
    cases h
    rw [readAnyFields]
    exact ⟨htidy, rfl⟩
  | (key, x) :: fields, entries, out, h, htidy => by
    rw [unmarshalFields] at h
    obtain ⟨y, hy, h⟩ := Option.bind_eq_some_iff.mp h
    have hfirst := denote_of_unmarshalAny x hy
    rw [denote] at hfirst
    obtain ⟨hout, hread⟩ :=
      denote_of_unmarshalFields fields h (insertKey_tidy trivial htidy)
    refine ⟨hout, ?_⟩
    rw [hread, readAnyFields, ← hfirst, insertKey_map (readAny fun n => .num n.rat)]

end

theorem denote_unmarshalAny_iff {v w : Value} (h : unmarshalAny floats v = some w) :
    denote w = denote v ↔ ∀ n ∈ numbers v, Exact floats n := by
  rw [denote_of_unmarshalAny v h, denote, readAny_eq_readAny_iff]
  exact forall₂_congr fun n _ => reading_eq_iff floats n

/-! ## Sorted keys -/

theorem exists_of_mem_unmarshalAnys {xs ys : List Value} (h : unmarshalAnys floats xs = some ys)
    {y : Value} (hy : y ∈ ys) : ∃ x, unmarshalAny floats x = some y := by
  induction xs generalizing ys with
  | nil =>
    rw [unmarshalAnys] at h
    cases h
    cases hy
  | cons x xs ih =>
    rw [unmarshalAnys] at h
    obtain ⟨z, hz, hrest⟩ := Option.bind_eq_some_iff.mp h
    obtain ⟨zs, hzs, rfl⟩ := Option.map_eq_some_iff.mp hrest
    rcases mem_cons.mp hy with rfl | hmem
    · exact ⟨x, hz⟩
    · exact ih hzs hmem

theorem tidy_of_unmarshalAny {v : Value} {obj : List (String × Value)}
    (h : unmarshalAny floats v = some (.object obj)) : Tidy (fun _ => True) obj := by
  cases v with
  | object fields =>
    rw [unmarshalAny] at h
    obtain ⟨entries, hentries, heq⟩ := Option.map_eq_some_iff.mp h
    cases heq
    exact (denote_of_unmarshalFields fields hentries (tidy_nil _)).1
  | _ => simp [unmarshalAny] at h

/-- The keys of the objects in an array are sorted. -/
def RowsTidy (data : Value) : Prop :=
  ∀ obj, Value.object obj ∈ elements data → Tidy (fun _ => True) obj

theorem rowsTidy_of_unmarshalAny {v w : Value} (h : unmarshalAny floats v = some w) :
    RowsTidy w := by
  intro obj hobj
  cases v with
  | array xs =>
    rw [unmarshalAny] at h
    obtain ⟨ys, hys, rfl⟩ := Option.map_eq_some_iff.mp h
    obtain ⟨x, hx⟩ := exists_of_mem_unmarshalAnys hys hobj
    exact tidy_of_unmarshalAny hx
  | object fields =>
    rw [unmarshalAny] at h
    obtain ⟨entries, -, rfl⟩ := Option.map_eq_some_iff.mp h
    cases hobj
  | number n =>
    rw [unmarshalAny] at h
    obtain ⟨m, -, rfl⟩ := Option.map_eq_some_iff.mp h
    cases hobj
  | _ =>
    rw [unmarshalAny] at h
    cases h
    cases hobj

end

/-! ## Reading the schema form -/

variable {obj : List (String × Value)} {vals more : List Value} {data : Value}

theorem map_valueAt (h : Tidy (fun _ => True) obj) :
    (obj.map Prod.fst).map (valueAt (.object obj)) = obj.map Prod.snd := by
  obtain ⟨hsorted, -⟩ := h
  induction obj with
  | nil => rfl
  | cons p obj ih =>
    obtain ⟨key, x⟩ := p
    obtain ⟨hlt, hrest⟩ := pairwise_cons.mp hsorted
    have hfirst : valueAt (.object ((key, x) :: obj)) key = x := by simp [valueAt]
    have htail : (obj.map Prod.fst).map (valueAt (.object ((key, x) :: obj))) =
        (obj.map Prod.fst).map (valueAt (.object obj)) := by
      rw [map_map, map_map]
      refine map_congr_left fun q hq => ?_
      have hne : (q.1 == key) = false := beq_false_of_ne (hlt q hq).ne'
      simp [valueAt, lookup_cons, hne]
    rw [map_cons, map_cons, map_cons, hfirst, htail, ih hrest]

variable {keys : List String} {arr : List Value}

/-- Sorted keys that are found among as many sorted keys are these. -/
theorem map_fst_eq_of_hasKeys (hkeys : keys.Pairwise (· < ·)) (hobj : Tidy (fun _ => True) obj)
    (h : hasKeys keys (.object obj) = true) : obj.map Prod.fst = keys := by
  simp only [hasKeys, Bool.and_eq_true, beq_iff_eq, all_eq_true] at h
  obtain ⟨hlen, hmem⟩ := h
  have hsub : keys ⊆ obj.map Prod.fst := by
    intro k hk
    obtain ⟨x, hx⟩ := Option.isSome_iff_exists.mp (hmem k hk)
    obtain ⟨before, rest, rfl, -⟩ := lookup_eq_some_iff.mp hx
    simp
  have hnodup : keys.Nodup := hkeys.imp fun hlt => hlt.ne
  have hperm : keys.Perm (obj.map Prod.fst) := by
    refine (hnodup.subperm hsub).perm_of_length_le ?_
    rw [length_map, hlen]
  exact (hperm.eq_of_pairwise' hkeys (pairwise_map.mpr hobj.1)).symm

theorem eq_zip_of_commonObjectSchema (hrows : RowsTidy (.array arr))
    (h : commonObjectSchema arr = some keys) {item : Value} (hitem : item ∈ arr) :
    item = .object (keys.zip (keys.map (valueAt item))) := by
  have hzip : ∀ obj, Value.object obj ∈ arr → obj.map Prod.fst = keys →
      Value.object obj = .object (keys.zip (keys.map (valueAt (.object obj)))) := by
    intro obj hobj hkeys
    rw [← hkeys, map_valueAt (hrows obj hobj)]
    exact congrArg Value.object (zip_of_prod rfl rfl)
  unfold commonObjectSchema at h
  split at h
  · next first rest =>
    dsimp only at h
    split at h
    · next hall =>
      cases h
      have hsorted : (first.map Prod.fst).Pairwise (· < ·) :=
        pairwise_map.mpr (hrows first mem_cons_self).1
      rcases mem_cons.mp hitem with rfl | hmem
      · exact hzip first mem_cons_self rfl
      · have hkeys := all_eq_true.mp hall item hmem
        cases item with
        | object obj =>
          exact hzip obj hitem (map_fst_eq_of_hasKeys hsorted (hrows obj hitem) hkeys)
        | _ => cases hkeys
    · cases h
  · cases h

theorem eq_of_rows (hrows : RowsTidy (.array arr)) (h : commonObjectSchema arr = some keys) :
    ((arr.map fun item => keys.map (valueAt item)).map fun vals =>
      Value.object (keys.zip vals)) = arr := by
  rw [map_map]
  refine (map_congr_left fun item hitem => ?_).trans (map_id arr)
  exact (eq_zip_of_commonObjectSchema hrows h hitem).symm

/-- The row of an element after its first value. -/
def rowTail (vals : List Value) : List Char :=
  (vals.flatMap fun v => ',' :: ' ' :: print v) ++ [']']

theorem renderRow_cons (v : Value) (vals : List Value) :
    renderRow (v :: vals) = '[' :: (print v ++ rowTail vals) := by
  rw [renderRow, map_cons, intercalate_eq_append, flatMap_map, append_assoc]
  rfl

theorem ends_rowTail (vals : List Value) : Ends (rowTail vals) := by
  intro c hc
  cases vals with
  | nil | cons =>
    cases hc
    decide

theorem rowTail_inj (h : rowTail vals = rowTail more) : vals = more := by
  induction vals generalizing more with
  | nil =>
    cases more with
    | nil => rfl
    | cons w more => cases h
  | cons v vals ih =>
    cases more with
    | nil => cases h
    | cons w more =>
      have htail : print v ++ rowTail vals = print w ++ rowTail more := by
        simpa [rowTail] using h
      obtain ⟨rfl, hrest⟩ :=
        print_append_inj (ends_rowTail vals) (ends_rowTail more) htail
      rw [ih hrest]

theorem renderRow_inj (h : renderRow vals = renderRow more) : vals = more := by
  have hnil : ∀ v vals, renderRow [] ≠ renderRow (v :: vals) := by
    intro v vals heq
    obtain ⟨c, cs, hprint, hstarts⟩ := print_eq_cons v
    rw [renderRow_cons, hprint] at heq
    obtain ⟨-, hclose⟩ := List.cons.inj heq
    obtain ⟨rfl, -⟩ := List.cons.inj hclose
    revert hstarts
    decide
  cases vals with
  | nil =>
    cases more with
    | nil => rfl
    | cons w more => exact absurd h (hnil w more)
  | cons v vals =>
    cases more with
    | nil => exact absurd h.symm (hnil v vals)
    | cons w more =>
      rw [renderRow_cons, renderRow_cons] at h
      obtain ⟨rfl, hrest⟩ := print_append_inj (ends_rowTail vals) (ends_rowTail more)
        (List.cons.inj h).2
      rw [rowTail_inj hrest]

theorem newline_notMem_renderRow (vals : List Value) : '\n' ∉ renderRow vals := by
  intro hmem
  rw [renderRow, mem_cons, mem_append] at hmem
  rcases hmem with hbad | hmem | hbad
  · exact absurd hbad (by decide)
  · rcases mem_intercalate hmem with hbad | ⟨text, htext, hbad⟩
    · exact absurd hbad (by decide)
    · obtain ⟨v, -, rfl⟩ := mem_map.mp htext
      exact (print_printable v).notMem (by decide) hbad
  · exact absurd hbad (by decide)

/-! ## Texts that clash -/

/-- The lines of the elements. -/
def rows (keys : List String) (data : Value) : List (List Char) :=
  ((elements data).map fun item => keys.map (valueAt item)).map renderRow

/-- Two values in schema form with one text: the rest of the rows is the same, and the header of the
one is the header of the other with the first rows of the other below it. -/
def Clash (data data' : Value) : Prop :=
  ∃ keys keys', schemaKeys data = some keys ∧ schemaKeys data' = some keys' ∧
    (Absorbs '\n' (schemaHeader keys) (rows keys data) (schemaHeader keys')
        (rows keys' data') ∨
      Absorbs '\n' (schemaHeader keys') (rows keys' data') (schemaHeader keys)
        (rows keys data))

theorem newline_notMem_rows (keys : List String) (data : Value) :
    ∀ line ∈ rows keys data, '\n' ∉ line := by
  intro line hline
  obtain ⟨vals, -, rfl⟩ := mem_map.mp hline
  exact newline_notMem_renderRow vals

theorem render_of_schemaKeys (h : schemaKeys data = some keys) :
    render data = under '\n' (schemaHeader keys) (rows keys data) := by
  rw [render, h, under, rows, flatMap_map, flatMap_map]
  rfl

/-- Two values are written alike exactly if they are the same or clash. -/
theorem render_eq_iff {data' : Value} :
    render data = render data' ↔ data = data' ∨ Clash data data' := by
  have hmixed : ∀ keys lines v, under '\n' (schemaHeader keys) lines ≠ print v := by
    intro keys lines v heq
    obtain ⟨c, cs, hprint, hstarts⟩ := print_eq_cons v
    rw [hprint] at heq
    obtain ⟨rfl, -⟩ := List.cons.inj heq
    revert hstarts
    decide
  have hrows : ∀ {keys keys'}, schemaKeys data = some keys → schemaKeys data' = some keys' →
      (render data = render data' ↔ _) := fun h h' => by
    rw [render_of_schemaKeys h, render_of_schemaKeys h', under_eq_under_iff
      (newline_notMem_rows _ data) (newline_notMem_rows _ data')]
  constructor
  · intro h
    cases hschema : schemaKeys data with
    | none =>
      have hdata : render data = print data := by rw [render, hschema]
      cases hschema' : schemaKeys data' with
      | none =>
        have hparse := parse_print data
        rw [← hdata, h, render, hschema', parse_print] at hparse
        exact Or.inl (Option.some.inj hparse).symm
      | some keys' =>
        rw [hdata, render_of_schemaKeys hschema'] at h
        exact absurd h.symm (hmixed keys' _ data)
    | some keys =>
      cases hschema' : schemaKeys data' with
      | none =>
        rw [render_of_schemaKeys hschema, render, hschema'] at h
        exact absurd h (hmixed keys _ data')
      | some keys' => exact Or.inr ⟨keys, keys', hschema, hschema', (hrows hschema hschema').mp h⟩
  · rintro (rfl | ⟨keys, keys', hschema, hschema', habsorbs⟩)
    · rfl
    · exact (hrows hschema hschema').mpr habsorbs

/-- Keys that can be read off the header: none has a line feed in it, and if there are several,
none has the separator in it. -/
structure PlainKeys (keys : List String) : Prop where
  /-- The header is one line. -/
  oneLine : ∀ k ∈ keys, '\n' ∉ k.toList
  /-- The keys are told apart. -/
  apart : keys.length ≤ 1 ∨ ∀ k ∈ keys, ¬ [',', ' '] <:+: k.toList

theorem PlainKeys.newline_notMem (h : PlainKeys keys) : '\n' ∉ schemaHeader keys := by
  intro hmem
  rw [schemaHeader, mem_append] at hmem
  rcases hmem with hbad | hmem
  · exact absurd hbad (by decide)
  · rcases mem_intercalate hmem with hbad | ⟨text, htext, hbad⟩
    · exact absurd hbad (by decide)
    · obtain ⟨k, hk, rfl⟩ := mem_map.mp htext
      exact h.oneLine k hk hbad

theorem PlainKeys.header_inj {keys' : List String} (h : PlainKeys keys) (h' : PlainKeys keys')
    (hlen : keys.length = keys'.length) (hheader : schemaHeader keys = schemaHeader keys') :
    keys = keys' := by
  have hjoin := append_cancel_left hheader
  have htexts : keys.map String.toList = keys'.map String.toList := by
    by_cases hone : keys.length ≤ 1
    · match keys, keys' with
      | [], [] => rfl
      | [_], [_] => simpa using hjoin
      | _ :: _ :: _, _ => simp at hone
    · exact intercalate_pair_inj (by decide) (by simpa using hlen)
        (forall_mem_map.mpr (h.apart.resolve_left hone))
        (forall_mem_map.mpr (h'.apart.resolve_left (by rwa [← hlen]))) hjoin
  exact map_injective_iff.mpr (fun _ _ => String.toList_injective) htexts

theorem schemaKeys_eq_some (h : schemaKeys data = some keys) :
    ∃ arr, data = .array arr ∧ arr ≠ [] ∧ commonObjectSchema arr = some keys := by
  unfold schemaKeys at h
  split at h
  · next arr =>
    split at h
    · next hlen =>
      refine ⟨arr, rfl, ?_, h⟩
      rintro rfl
      cases hlen
    · cases h
  · cases h

/-- Values with plain keys clash only if they are the same. -/
theorem eq_of_clash {data' : Value} (hrows : RowsTidy data) (hrows' : RowsTidy data')
    (hplain : ∀ keys, schemaKeys data = some keys → PlainKeys keys)
    (hplain' : ∀ keys, schemaKeys data' = some keys → PlainKeys keys)
    (h : Clash data data') : data = data' := by
  obtain ⟨keys, keys', hschema, hschema', habsorbs⟩ := h
  have hkeys := hplain keys hschema
  have hkeys' := hplain' keys' hschema'
  obtain ⟨arr, rfl, hne, hcommon⟩ := schemaKeys_eq_some hschema
  obtain ⟨arr', rfl, -, hcommon'⟩ := schemaKeys_eq_some hschema'
  -- a header of one line takes no rows in
  have hnone : ∀ {head head' : List Char} {xs ys : List (List Char)}, '\n' ∉ head →
      Absorbs '\n' head xs head' ys → head = head' ∧ xs = ys := by
    rintro head head' xs ys hhead ⟨extra, rfl, rfl⟩
    cases extra with
    | nil => simp [under]
    | cons line extra => simp [under] at hhead
  obtain ⟨hheader, hlines⟩ : schemaHeader keys = schemaHeader keys' ∧
      rows keys (.array arr) = rows keys' (.array arr') := by
    rcases habsorbs with h | h
    · exact hnone hkeys.newline_notMem h
    · exact (hnone hkeys'.newline_notMem h).imp Eq.symm Eq.symm
  have hvals := map_injective_iff.mpr (fun _ _ => renderRow_inj) hlines
  rw [elements, elements] at hvals
  -- a row has as many values as there are keys
  have hlen : keys.length = keys'.length := by
    cases arr with
    | nil => exact absurd rfl hne
    | cons item arr =>
      cases arr' with
      | nil => cases hvals
      | cons item' arr' =>
        have hfirst := congrArg List.length (List.cons.inj hvals).1
        rwa [length_map, length_map] at hfirst
  obtain rfl := hkeys.header_inj hkeys' hlen hheader
  rw [← eq_of_rows hrows hcommon, hvals, eq_of_rows hrows' hcommon']

/-! ## What the result tells -/

section

variable {F : Type} (floats : Floats F)

/-- The keys, if the content is written in schema form. -/
def schemaOf (content : Bytes) : Option (List String) := (unmarshal floats content).bind schemaKeys

/-- The contents are decoded to values that clash. -/
def Collide (content content' : Bytes) : Prop :=
  ∃ data data', unmarshal floats content = some data ∧ unmarshal floats content' = some data' ∧
    Clash data data'

variable {floats}

variable {content : Bytes} {v data : Value}

theorem exists_of_compressJSON {result : Bytes} (h : compressJSON floats content = some result) :
    ∃ data, unmarshal floats content = some data ∧ result = encode (render data) ∧
      result.length < content.length := by
  obtain ⟨data, hdata, hresult⟩ := Option.bind_eq_some_iff.mp h
  dsimp only at hresult
  split at hresult
  · cases hresult
  · next hlen =>
    cases hresult
    exact ⟨data, hdata, rfl, Nat.lt_of_not_le hlen⟩

theorem unmarshalAny_of_unmarshal (hv : parse (decode content) = some v)
    (h : unmarshal floats content = some data) : unmarshalAny floats v = some data := by
  rw [unmarshal, hv, Option.bind_some] at h
  split at h
  · exact h
  · cases h

theorem schemaOf_of_unmarshal (h : unmarshal floats content = some data) :
    schemaOf floats content = schemaKeys data := by
  rw [schemaOf, h, Option.bind_some]

/-- A printed value that is decoded as it is. -/
theorem compressJSON_print (hnesting : nesting v ≤ maxNestingDepth)
    (hv : unmarshalAny floats v = some v)
    (hlen : (encode (render v)).length < (encode (print v)).length) :
    unmarshal floats (encode (print v)) = some v ∧
      compressJSON floats (encode (print v)) = some (encode (render v)) := by
  have hunmarshal : unmarshal floats (encode (print v)) = some v := by
    rw [unmarshal, Utf8.decode_encode, parse_print, Option.bind_some, if_pos hnesting, hv]
  refine ⟨hunmarshal, ?_⟩
  rw [compressJSON, hunmarshal, Option.bind_some]
  exact if_neg (Nat.not_le.mpr hlen)

end

/-- Three objects with one key, which has the separator in it. -/
def idRows (n : Int) : Value :=
  let row : Value := .object [("id, no", .number (Number.ofInt n))]
  .array [row, row, row]

theorem compressJSON_idRows {n : Int} (h : n ∈ [1, 2]) :
    unmarshal wholeFloats (encode (print (idRows n))) = some (idRows n) ∧
      compressJSON wholeFloats (encode (print (idRows n))) =
        some (encode (render (idRows n))) := by
  apply compressJSON_print
  · simp [idRows, nesting, nestingAll, nestingFields, maxNestingDepth]
  · simp [idRows, unmarshalAny, unmarshalAnys, unmarshalFields, insertKey, literal, wholeFloats,
      Number.toInt_ofInt]
  · fin_cases h <;> decide +kernel

/-- Three objects with two keys. -/
def pairRows (key key' : String) : Value :=
  let row : Value := .object [(key, .bool true), (key', .bool false)]
  .array [row, row, row]

end Ixr.Compressor
