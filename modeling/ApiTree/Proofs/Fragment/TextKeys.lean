import ApiTree.Proofs.Fragment.Read
import ApiTree.Proofs.Fragment.Transform

/-!
# Keys as text

A fragment is read with the keys of its mappings written as text. Mappings and lists are entered and
nothing else is: a mapping in a pair keeps its keys as they are. Two keys that have one text become
one key, with the value of the last. So each mapping of a file becomes one with text keys and as
many entries exactly if no mapping outside of pairs has two keys of one text, and those in pairs
have text keys already (`read_keepsEntries_iff`).
-/

set_option autoImplicit false

namespace ApiTree

namespace Value

/-! ## Parts of a value -/

/-- A way from a value to one of its parts. -/
inductive Part where
  /-- To the value at the key that has the given text; to the last one if several keys have it. -/
  | value (key : String)
  | item (index : Nat)
  | first
  | second
  deriving DecidableEq, Repr

/-- The value of the last entry whose key has the given text. -/
def lastAt? (key : String) (entries : Fields) : Option Value :=
  ((entries.filter fun e => e.1.text = key).getLast?).map Prod.snd

/-- The part of a value. -/
def part? : Part → Value → Option Value
  | .value key, .map entries => lastAt? key entries
  | .item index, .seq items => items[index]?
  | .first, .pair a _ => some a
  | .second, .pair _ b => some b
  | _, _ => none

/-- The value that is reached from part to part. -/
def partAt? : List Part → Value → Option Value
  | [], v => some v
  | p :: ps, v => (part? p v).bind (partAt? ps)

/-- No pair is entered on the way. -/
def AvoidsPairs (ps : List Part) : Prop := ∀ p ∈ ps, p ≠ .first ∧ p ≠ .second

/-- The value `w` is the given one or stands in it, at any depth. -/
inductive Within (w : Value) : Value → Prop
  | refl : Within w w
  | key {k v : Value} {entries : Fields} (hmem : (k, v) ∈ entries) (h : Within w k) :
      Within w (.map entries)
  | value {k v : Value} {entries : Fields} (hmem : (k, v) ∈ entries) (h : Within w v) :
      Within w (.map entries)
  | item {v : Value} {items : List Value} (hmem : v ∈ items) (h : Within w v) :
      Within w (.seq items)
  | member {v : Value} {members : List Value} (hmem : v ∈ members) (h : Within w v) :
      Within w (.set members)
  | first {a b : Value} (h : Within w a) : Within w (.pair a b)
  | second {a b : Value} (h : Within w b) : Within w (.pair a b)

/-- Every mapping in the value has text keys only. -/
def HasTextKeys (v : Value) : Prop := ∀ entries, Within (.map entries) v → ∀ e ∈ entries, e.1.isStr

/-- Every mapping in the result has text keys only, and as many entries as the mapping that was
built at its place. -/
def KeepsEntries (built result : Value) : Prop :=
  HasTextKeys result ∧ ∀ ps entries, partAt? ps result = some (.map entries) →
    ∃ es, partAt? ps built = some (.map es) ∧ entries.length = es.length

theorem Within.trans {u v w : Value} (huv : Within u v) (hvw : Within v w) : Within u w := by
  induction hvw with
  | refl => exact huv
  | key hmem _ ih => exact .key hmem ih
  | value hmem _ ih => exact .value hmem ih
  | item hmem _ ih => exact .item hmem ih
  | member hmem _ ih => exact .member hmem ih
  | first _ ih => exact .first ih
  | second _ ih => exact .second ih

theorem within_of_part? {p : Part} {v w : Value} (h : part? p v = some w) : Within w v := by
  cases p with
  | value key =>
    cases v with
    | map entries =>
      obtain ⟨e, he, rfl⟩ := Option.map_eq_some_iff.mp h
      exact .value (List.mem_filter.mp (List.mem_of_getLast? he)).1 .refl
    | _ => cases h
  | item index =>
    cases v with
    | seq items => exact .item (List.mem_of_getElem? h) .refl
    | _ => cases h
  | first =>
    cases v with
    | pair a b => exact Option.some.inj h ▸ .first .refl
    | _ => cases h
  | second =>
    cases v with
    | pair a b => exact Option.some.inj h ▸ .second .refl
    | _ => cases h

theorem within_of_partAt? {ps : List Part} {v w : Value} (h : partAt? ps v = some w) :
    Within w v := by
  induction ps generalizing v with
  | nil => exact Option.some.inj h ▸ .refl
  | cons p ps ih =>
    obtain ⟨u, hu, hrest⟩ := Option.bind_eq_some_iff.mp h
    exact (ih hrest).trans (within_of_part? hu)

/-! ## Keys that become text -/

/-- The texts of the keys. -/
def keyTexts (entries : Fields) : List String := entries.map fun e => e.1.text

theorem str_injective : Function.Injective Value.str := fun _ _ h => Value.str.inj h

theorem entriesWithTextKeys_eq_map (entries : Fields) :
    entriesWithTextKeys entries = entries.map fun e => (.str e.1.text, withTextKeys e.2) := by
  induction entries with
  | nil => rfl
  | cons e entries ih => rw [entriesWithTextKeys, ih, List.map_cons]

theorem itemsWithTextKeys_eq_map (items : List Value) :
    itemsWithTextKeys items = items.map withTextKeys := by
  induction items with
  | nil => rfl
  | cons v items ih => rw [itemsWithTextKeys, ih, List.map_cons]

theorem keys_entriesWithTextKeys (entries : Fields) :
    Entries.keys (entriesWithTextKeys entries) = (keyTexts entries).map .str := by
  rw [entriesWithTextKeys_eq_map, Entries.keys, keyTexts, List.map_map, List.map_map]
  rfl

/-- The entries of a mapping once its keys are text. -/
def textEntries (entries : Fields) : Fields := Entries.ofPairs (entriesWithTextKeys entries)

theorem withTextKeys_map (entries : Fields) :
    withTextKeys (.map entries) = .map (textEntries entries) := rfl

theorem nodup_keys_textEntries (entries : Fields) : (Entries.keys (textEntries entries)).Nodup :=
  Entries.nodup_keys_putAll List.nodup_nil

theorem exists_of_mem_textEntries {entries : Fields} {e : Value × Value}
    (h : e ∈ textEntries entries) : ∃ key, e.1 = .str key := by
  have hkey : e.1 ∈ Entries.keys (entriesWithTextKeys entries) :=
    (Entries.mem_keys_putAll.mp (List.mem_map_of_mem h)).resolve_right List.not_mem_nil
  rw [keys_entriesWithTextKeys] at hkey
  obtain ⟨key, -, hstr⟩ := List.mem_map.mp hkey
  exact ⟨key, hstr.symm⟩

/-- There is one entry for each text of a key. -/
theorem length_textEntries (entries : Fields) :
    (textEntries entries).length = (keyTexts entries).dedup.length := by
  rw [textEntries, Entries.length_ofPairs, keys_entriesWithTextKeys,
    List.dedup_map_of_injective str_injective, List.length_map]

/-- No entry is lost exactly if no two keys have one text. -/
theorem length_textEntries_eq_iff (entries : Fields) :
    (textEntries entries).length = entries.length ↔ (keyTexts entries).Nodup := by
  have hlength : entries.length = (keyTexts entries).length := (List.length_map _).symm
  rw [length_textEntries, hlength]
  constructor
  · exact fun h => List.dedup_eq_self.mp ((List.dedup_sublist _).eq_of_length h)
  · exact fun h => by rw [List.dedup_eq_self.mpr h]

/-- At a text stands what the last key of that text had. -/
theorem get?_textEntries (key : String) (entries : Fields) :
    Entries.get? (.str key) (textEntries entries) = (lastAt? key entries).map withTextKeys := by
  rw [textEntries, Entries.get?_ofPairs, entriesWithTextKeys_eq_map, List.filter_map,
    List.getLast?_map, Option.map_map, lastAt?, Option.map_map]
  have hkeep : ((fun e : Value × Value => decide (e.1 = .str key)) ∘ fun e : Value × Value =>
      (Value.str e.1.text, withTextKeys e.2)) = fun e => decide (e.1.text = key) := by
    funext e
    simp
  rw [hkeep]
  rfl

theorem lastAt?_textEntries (key : String) (entries : Fields) :
    lastAt? key (textEntries entries) = (lastAt? key entries).map withTextKeys := by
  have hfilter : (textEntries entries).filter (fun e => e.1.text = key) =
      (textEntries entries).filter fun e => e.1 = .str key := by
    refine List.filter_congr fun e he => ?_
    obtain ⟨other, hother⟩ := exists_of_mem_textEntries he
    rw [hother, decide_eq_decide]
    simp [text]
  rw [← get?_textEntries, lastAt?, hfilter, ← Entries.get?_ofPairs,
    Entries.ofPairs_of_nodup (nodup_keys_textEntries entries)]

/-! ## Parts of the result -/

theorem part?_withTextKeys {p : Part} (hp : p ≠ .first ∧ p ≠ .second) (v : Value) :
    part? p (withTextKeys v) = (part? p v).map withTextKeys := by
  cases p with
  | value key =>
    cases v with
    | map entries => exact lastAt?_textEntries key entries
    | _ => rfl
  | item index =>
    cases v with
    | seq items =>
      rw [withTextKeys, itemsWithTextKeys_eq_map]
      exact List.getElem?_map
    | _ => rfl
  | first => exact absurd rfl hp.1
  | second => exact absurd rfl hp.2

/-- Outside of pairs the result has in each place what stood there, with its keys as text. -/
theorem partAt?_withTextKeys {ps : List Part} (hps : AvoidsPairs ps) (v : Value) :
    partAt? ps (withTextKeys v) = (partAt? ps v).map withTextKeys := by
  induction ps generalizing v with
  | nil => rfl
  | cons p ps ih =>
    obtain ⟨hp, hrest⟩ := List.forall_mem_cons.mp hps
    rw [partAt?, partAt?, part?_withTextKeys hp]
    cases part? p v with
    | none => rfl
    | some w => exact ih hrest w

/-- In a pair the result has in each place what stood there, as it was. -/
theorem partAt?_withTextKeys_of_pair {ps : List Part} (hps : ¬ AvoidsPairs ps) (v : Value) :
    partAt? ps (withTextKeys v) = partAt? ps v := by
  induction ps generalizing v with
  | nil => exact absurd (fun _ hp => by cases hp) hps
  | cons p ps ih =>
    rw [partAt?, partAt?]
    by_cases hp : p ≠ .first ∧ p ≠ .second
    · have hrest : ¬ AvoidsPairs ps := fun hrest => hps (List.forall_mem_cons.mpr ⟨hp, hrest⟩)
      rw [part?_withTextKeys hp]
      cases part? p v with
      | none => rfl
      | some w => exact ih hrest w
    · -- only a pair has such a part, and pairs are not entered
      have hpart : part? p (withTextKeys v) = part? p v := by
        cases p with
        | value key => exact absurd ⟨nofun, nofun⟩ hp
        | item index => exact absurd ⟨nofun, nofun⟩ hp
        | first => cases v <;> rfl
        | second => cases v <;> rfl
      rw [hpart]

theorem eq_map_of_withTextKeys {v : Value} {entries : Fields}
    (h : withTextKeys v = .map entries) : ∃ es, v = .map es ∧ entries = textEntries es := by
  cases v with
  | map es => exact ⟨es, rfl, (Value.map.inj h).symm⟩
  | _ => cases h

/-- The value is a pair or a set. -/
def IsClosed : Value → Prop
  | .pair _ _ | .set _ => True
  | _ => False

theorem withTextKeys_of_isClosed {v : Value} (h : IsClosed v) : withTextKeys v = v := by
  cases v with
  | pair | set => rfl
  | _ => exact h.elim

/-- The mapping stands in a pair or a set, to which no other pair leads. -/
def InClosed (entries : Fields) (v : Value) : Prop :=
  ∃ ps w, AvoidsPairs ps ∧ partAt? ps v = some w ∧ IsClosed w ∧ Within (.map entries) w

theorem inClosed_of_isClosed {entries : Fields} {v : Value} (hv : IsClosed v)
    (h : Within (.map entries) v) : InClosed entries v :=
  ⟨[], v, nofun, rfl, hv, h⟩

/-- What stands so in a part of a value stands so in the value. -/
theorem inClosed_of_part? {entries : Fields} {p : Part} {v w : Value} (hw : part? p v = some w)
    (hp : p ≠ .first ∧ p ≠ .second) (h : InClosed entries w) : InClosed entries v := by
  obtain ⟨ps, u, hps, hu, hclosed⟩ := h
  refine ⟨p :: ps, u, List.forall_mem_cons.mpr ⟨hp, hps⟩, ?_, hclosed⟩
  rw [partAt?, hw]
  exact hu

/-- An entry of the result has at its key what the mapping has there, with its keys as text. -/
theorem exists_part?_of_mem_textEntries {entries : Fields} {k v : Value}
    (h : (k, v) ∈ textEntries entries) :
    ∃ key u, part? (.value key) (.map entries) = some u ∧ k = .str key ∧ v = withTextKeys u := by
  obtain ⟨key, hkey⟩ := exists_of_mem_textEntries h
  obtain rfl : k = .str key := hkey
  have hv := (get?_textEntries key entries).symm.trans
    (Entries.get?_of_mem (nodup_keys_textEntries entries) h)
  obtain ⟨u, hu, rfl⟩ := Option.map_eq_some_iff.mp hv
  exact ⟨key, u, hu, rfl, rfl⟩

theorem exists_part?_of_mem_itemsWithTextKeys {items : List Value} {v : Value}
    (h : v ∈ itemsWithTextKeys items) :
    ∃ i u, part? (.item i) (.seq items) = some u ∧ v = withTextKeys u := by
  rw [itemsWithTextKeys_eq_map] at h
  obtain ⟨u, hu, rfl⟩ := List.mem_map.mp h
  obtain ⟨i, hi⟩ := List.mem_iff_getElem?.mp hu
  exact ⟨i, u, hi, rfl⟩

/-- A mapping in the result stands outside of pairs and sets and was written with its keys as text,
or it stands in one that was outside of the others. -/
theorem exists_of_within_withTextKeys {entries : Fields} {r : Value}
    (h : Within (.map entries) r) : ∀ {v : Value}, r = withTextKeys v →
      (∃ es, entries = textEntries es) ∨ InClosed entries v := by
  induction h with
  | refl =>
    intro v hv
    obtain ⟨es, -, hes⟩ := eq_map_of_withTextKeys hv.symm
    exact .inl ⟨es, hes⟩
  | key hmem hwithin _ =>
    intro v hv
    obtain ⟨es, rfl, rfl⟩ := eq_map_of_withTextKeys hv.symm
    obtain ⟨key, u, -, rfl, -⟩ := exists_part?_of_mem_textEntries hmem
    -- a text holds no mapping
    cases hwithin
  | value hmem _ ih =>
    intro v hv
    obtain ⟨es, rfl, rfl⟩ := eq_map_of_withTextKeys hv.symm
    obtain ⟨key, u, hu, -, hx⟩ := exists_part?_of_mem_textEntries hmem
    exact (ih hx).imp_right (inClosed_of_part? hu ⟨nofun, nofun⟩)
  | @item x items hmem _ ih =>
    intro v hv
    cases v with
    | seq vs =>
      obtain rfl : items = itemsWithTextKeys vs := Value.seq.inj hv
      obtain ⟨i, u, hu, hx⟩ := exists_part?_of_mem_itemsWithTextKeys hmem
      exact (ih hx).imp_right (inClosed_of_part? hu ⟨nofun, nofun⟩)
    | _ => cases hv
  | member hmem hwithin _ =>
    intro v hv
    cases v with
    | set vs =>
      obtain rfl := Value.set.inj hv
      exact .inr (inClosed_of_isClosed trivial (.member hmem hwithin))
    | _ => cases hv
  | first hwithin _ =>
    intro v hv
    cases v with
    | pair a b =>
      obtain ⟨rfl, rfl⟩ := Value.pair.inj hv
      exact .inr (inClosed_of_isClosed trivial (.first hwithin))
    | _ => cases hv
  | second hwithin _ =>
    intro v hv
    cases v with
    | pair a b =>
      obtain ⟨rfl, rfl⟩ := Value.pair.inj hv
      exact .inr (inClosed_of_isClosed trivial (.second hwithin))
    | _ => cases hv

/-- Outside of pairs no mapping of the value has two keys of one text, and the mappings in pairs and
sets have text keys. -/
structure HasDistinctTexts (v : Value) : Prop where
  nodup : ∀ ps entries, AvoidsPairs ps → partAt? ps v = some (.map entries) →
    (keyTexts entries).Nodup
  closed : ∀ ps w, AvoidsPairs ps → partAt? ps v = some w → IsClosed w → HasTextKeys w

/-- A value has distinct texts if it and its parts have. -/
theorem HasDistinctTexts.of_parts {v : Value}
    (hnodup : ∀ entries, v = .map entries → (keyTexts entries).Nodup)
    (hclosed : IsClosed v → HasTextKeys v)
    (hparts : ∀ p w, part? p v = some w → HasDistinctTexts w) : HasDistinctTexts v := by
  refine ⟨fun ps entries hps h => ?_, fun ps w hps h hw => ?_⟩
  · cases ps with
    | nil => exact hnodup entries (Option.some.inj h)
    | cons p ps =>
      obtain ⟨u, hu, hrest⟩ := Option.bind_eq_some_iff.mp h
      exact (hparts p u hu).nodup ps entries (List.forall_mem_cons.mp hps).2 hrest
  · cases ps with
    | nil =>
      obtain rfl := Option.some.inj h
      exact hclosed hw
    | cons p ps =>
      obtain ⟨u, hu, hrest⟩ := Option.bind_eq_some_iff.mp h
      exact (hparts p u hu).closed ps w (List.forall_mem_cons.mp hps).2 hrest hw

theorem hasDistinctTexts_map {entries : Fields} (hnodup : (keyTexts entries).Nodup)
    (hvalues : ∀ e ∈ entries, HasDistinctTexts e.2) : HasDistinctTexts (.map entries) := by
  refine .of_parts (fun es h => Value.map.inj h ▸ hnodup) (fun h => h.elim) fun p w hw => ?_
  cases p with
  | value key =>
    obtain ⟨e, he, rfl⟩ := Option.map_eq_some_iff.mp hw
    exact hvalues e (List.mem_filter.mp (List.mem_of_getLast? he)).1
  | _ => cases hw

theorem hasDistinctTexts_seq {items : List Value} (h : ∀ v ∈ items, HasDistinctTexts v) :
    HasDistinctTexts (.seq items) := by
  refine .of_parts nofun (fun h => h.elim) fun p w hw => ?_
  cases p with
  | item i => exact h w (List.mem_of_getElem? hw)
  | _ => cases hw

theorem hasDistinctTexts_str (s : String) : HasDistinctTexts (.str s) :=
  .of_parts nofun (fun h => h.elim) fun p w hw => by cases p <;> cases hw

/-- With its keys as text a value has text keys alone and all its entries exactly if no keys fall
together and none is left as it was. -/
theorem keepsEntries_withTextKeys_iff (v : Value) :
    KeepsEntries v (withTextKeys v) ↔ HasDistinctTexts v := by
  constructor
  · rintro ⟨htext, hlength⟩
    refine ⟨fun ps es hps hes => ?_, fun ps w hps hw hclosed => ?_⟩
    · have hresult : partAt? ps (withTextKeys v) = some (.map (textEntries es)) := by
        rw [partAt?_withTextKeys hps, hes]
        rfl
      obtain ⟨es', hes', heq⟩ := hlength ps _ hresult
      obtain rfl := Value.map.inj (Option.some.inj (hes.symm.trans hes'))
      exact (length_textEntries_eq_iff es).mp heq
    · have hresult : partAt? ps (withTextKeys v) = some w := by
        rw [partAt?_withTextKeys hps, hw, Option.map_some, withTextKeys_of_isClosed hclosed]
      exact fun entries hentries =>
        htext entries (hentries.trans (within_of_partAt? hresult))
  · rintro ⟨hnodup, hclosed⟩
    refine ⟨fun entries hentries e he => ?_, fun ps entries hentries => ?_⟩
    · rcases exists_of_within_withTextKeys hentries rfl with ⟨es, rfl⟩ | ⟨ps, w, hps, hw, hw', hin⟩
      · obtain ⟨key, hkey⟩ := exists_of_mem_textEntries he
        rw [hkey]
        rfl
      · exact hclosed ps w hps hw hw' entries hin e he
    · by_cases hps : AvoidsPairs ps
      · rw [partAt?_withTextKeys hps] at hentries
        obtain ⟨w, hw, hmap⟩ := Option.map_eq_some_iff.mp hentries
        obtain ⟨es, rfl, rfl⟩ := eq_map_of_withTextKeys hmap
        exact ⟨es, hw, (length_textEntries_eq_iff es).mpr (hnodup ps es hps hw)⟩
      · rw [partAt?_withTextKeys_of_pair hps] at hentries
        exact ⟨entries, hentries, rfl⟩

end Value

/-! ## Files -/

namespace Fragment

open Value

theorem builds_of_yamlRead {text : String} {built : Fields} {endless : Bool}
    (h : Yaml.read text.toList = .ok ⟨.map built, endless⟩) : Builds text built endless := by
  have hallowed : text.toList.all Yaml.isAllowed = true := by
    by_contra hnot
    rw [Yaml.read, if_neg hnot] at h
    cases h
  exact (yamlRead_eq_map_iff hallowed).mp h

/-- A text builds one mapping. -/
theorem Builds.eq {text : String} {built other : Fields} {endless endless' : Bool}
    (h : Builds text built endless) (h' : Builds text other endless') : built = other := by
  obtain ⟨n, hroot, hvalue, -⟩ := h
  obtain ⟨n', hroot', hvalue', -⟩ := h'
  obtain rfl := Option.some.inj (Except.ok.inj (hroot.symm.trans hroot'))
  exact Value.map.inj (Except.ok.inj (hvalue.symm.trans hvalue'))

/-- What is read from a file is the mapping that its text builds, with its keys as text. -/
theorem exists_of_read {disk : Disk} {path : FilePath} {fields : Fields}
    (h : read disk path = .ok fields) : ∃ content text built, disk.read path = .ok content ∧
      decode content = .ok text ∧ Builds text built false ∧ fields = textEntries built := by
  rw [read] at h
  cases hfile : disk.read path with
  | error f =>
    rw [hfile] at h
    cases h
  | ok content =>
    rw [hfile] at h
    obtain ⟨text, htext, hparse⟩ := bind_eq_ok.mp h
    refine ⟨content, text, ?_⟩
    rw [parse] at hparse
    split at hparse
    · cases hparse
    split at hparse
    · cases hparse
    · cases hparse
    · next built endless hread =>
      split at hparse
      · cases hparse
      next hfinite =>
      split at hparse
      · cases hparse
      obtain rfl : endless = false := Bool.eq_false_iff.mpr hfinite
      exact ⟨built, rfl, htext, builds_of_yamlRead hread, (Except.ok.inj hparse).symm⟩
    · cases hparse

/-- A file with the given text. -/
def inputFile (text : String) : Disk := ⟨["w"], [(["w", "input.yml"], .file text.toUTF8)]⟩

/-- The path of the file. -/
def inputPath : FilePath := ⟨.relative, ["input.yml"]⟩

theorem read_inputFile {text : String} {fields : Fields}
    (hlines : Text.unifyNewlines text.toList = text.toList)
    (hparse : parse inputPath.render text = .ok fields) :
    read (inputFile text) inputPath = .ok fields :=
  read_of_text text rfl (decode_toUTF8 hlines) hparse

/-- The mapping that a text builds, read off its value. -/
theorem builds_of_value {text : String} {built : Fields}
    (h : (Yaml.read text.toList).toOption.map (fun r => (r.value, r.endless)) =
      some (.map built, false)) : Builds text built false := by
  cases hread : Yaml.read text.toList with
  | error e =>
    rw [hread] at h
    cases h
  | ok r =>
    rw [hread] at h
    obtain ⟨hvalue, hendless⟩ := Prod.mk.inj (Option.some.inj h)
    refine builds_of_yamlRead (hread.trans ?_)
    rw [← hvalue, ← hendless]

end Fragment
end ApiTree
