import ApiTree.Fragment.Transform
import ApiTree.Proofs.Except
import ApiTree.Proofs.Value.Agree

/-!
# What a fragment contributes

A fragment is read with each key of its mappings written once. The steps that turn it into a part of
the document keep that, so that what it contributes can be merged key by key
(`keysOnce_unexpanded`).
-/

set_option autoImplicit false

namespace ApiTree

open Value

/-! ## Reading -/

mutual

theorem Value.keysOnce_withTextKeys : ∀ v : Value, KeysOnce v.withTextKeys
  | .map entries => keysOnce_nil.putAll (keysOnce_entriesWithTextKeys entries)
  | .null | .bool _ | .int _ | .float _ | .str _ | .date _ | .timestamp _ | .bytes _ | .seq _
  | .set _ | .pair _ _ => .leaf rfl

theorem Value.keysOnce_entriesWithTextKeys : ∀ entries : List (Value × Value),
    ∀ e ∈ entriesWithTextKeys entries, KeysOnce e.2
  | [] => fun _ h => by cases h
  | (_, v) :: entries => List.forall_mem_cons.mpr
    ⟨keysOnce_withTextKeys v, keysOnce_entriesWithTextKeys entries⟩

end

namespace Fragment

theorem keysOnce_parse {path text : String} {entries : Fields}
    (h : parse path text = .ok entries) : KeysOnce (.map entries) := by
  rw [parse] at h
  split at h
  · cases h
  · split at h
    · cases h
    · cases h
    · split at h
      · cases h
      · split at h
        · cases h
        · rw [← Except.ok.inj h]
          exact keysOnce_nil.putAll (keysOnce_entriesWithTextKeys _)
    · cases h

theorem keysOnce_read {disk : Disk} {path : FilePath} {entries : Fields}
    (h : read disk path = .ok entries) : KeysOnce (.map entries) := by
  rw [read] at h
  split at h
  · cases h
  · next bytes _ =>
    cases hdecode : decode bytes with
    | error fault => rw [hdecode] at h; cases h
    | ok text =>
      rw [hdecode] at h
      exact keysOnce_parse h

/-- A file holds what its text says. -/
theorem read_of_text (text : String) {disk : Disk} {path : FilePath} {content : Fields}
    (hfile : disk.read path = .ok text.toUTF8) (hdecode : decode text.toUTF8 = .ok text)
    (hparse : parse path.render text = .ok content) : read disk path = .ok content := by
  rw [read, hfile]
  simp only [hdecode]
  exact hparse

/-- A text without other newlines is decoded as it was encoded. -/
theorem decode_toUTF8 {text : String} (h : Text.unifyNewlines text.toList = text.toList) :
    decode text.toUTF8 = .ok text := by
  have hdecode : String.fromUTF8? text.toUTF8 = some text := dif_pos text.isValidUTF8
  rw [decode, hdecode]
  simp only
  rw [h, String.ofList_toList]

/-- A file of two braces holds the empty mapping. -/
theorem read_of_braces {disk : Disk} {path : FilePath}
    (hfile : disk.read path = .ok "\x7b\x7d".toUTF8) : read disk path = .ok [] := by
  have hyaml : Yaml.read "\x7b\x7d".toList = .ok ⟨.map [], false⟩ := by cbv
  refine read_of_text "\x7b\x7d" hfile (by cbv) ?_
  rw [parse, hyaml]
  rfl

/-! ## The steps -/

theorem keysOnce_nestContent {entry nested : Fields} (h : nestContent entry = .ok nested)
    (hentry : KeysOnce (.map entry)) : KeysOnce (.map nested) := by
  rw [nestContent] at h
  split at h
  · rw [← Except.ok.inj h]
    exact hentry
  · have hrest : KeysOnce (.map (Fields.erase "examples" (Fields.erase "schema" entry))) :=
      hentry.sublist ((Entries.erase_sublist _ _).trans (Entries.erase_sublist _ _))
    have hflat : KeysOnce (.map (Fields.pick ["schema", "examples"] entry)) :=
      hentry.pick (by decide)
    dsimp only at h
    split at h
    · next content hcontent =>
      rw [← Except.ok.inj h]
      have honce : KeysOnce (.map content) := by
        rw [← hcontent]
        split
        · rw [Fields.getD]
          cases hget : Fields.get? "content" (Fields.erase "examples" (Fields.erase "schema" entry))
            with
          | none => exact .leaf rfl
          | some v => exact hrest.of_get? hget
        · exact keysOnce_nil
      refine hrest.put _ (KeysOnce.mergeEntries _ honce fun e he => ?_)
      rw [List.mem_singleton.mp he]
      exact hflat.sublist List.filter_sublist
    · cases h

/-- A step on entries that keeps each key, and keeps it that the value writes its keys once. -/
theorem keysOnce_mapM_entries {f : Value × Value → Except Failure (Value × Value)}
    (hf : ∀ e e', f e = .ok e' → e'.1 = e.1 ∧ (KeysOnce e.2 → KeysOnce e'.2)) :
    ∀ {entries entries' : Fields}, entries.mapM f = .ok entries' →
      Entries.keys entries' = Entries.keys entries ∧
        ((∀ e ∈ entries, KeysOnce e.2) → ∀ e ∈ entries', KeysOnce e.2)
  | [], entries', h => by
    obtain rfl := Except.ok.inj h
    exact ⟨rfl, fun h => h⟩
  | e :: entries, entries', h => by
    rw [List.mapM_cons] at h
    cases hfirst : f e with
    | error failure => rw [hfirst] at h; cases h
    | ok e' =>
      cases hrest : entries.mapM f with
      | error failure => rw [hfirst, hrest] at h; cases h
      | ok rest =>
        rw [hfirst, hrest] at h
        obtain rfl := Except.ok.inj h
        obtain ⟨hkey, hvalue⟩ := hf e e' hfirst
        obtain ⟨hkeys, hvalues⟩ := keysOnce_mapM_entries hf hrest
        refine ⟨?_, fun honce => ?_⟩
        · rw [Entries.keys_cons, Entries.keys_cons, hkey, hkeys]
        · rw [List.forall_mem_cons] at honce
          exact List.forall_mem_cons.mpr ⟨hvalue honce.1, hvalues honce.2⟩

/-- An entry of components with what is flat in it nested in its content, if it is a mapping. -/
def nestEntry (e : Value × Value) : Except Failure (Value × Value) :=
  match e.2 with
  | .map entry => do return (e.1, .map (← nestContent entry))
  | v => .ok (e.1, v)

theorem withContent_eq (f : Fragment) :
    withContent f = if f.kind = .component then f.content.mapM nestEntry else .ok f.content := rfl

theorem keysOnce_nestEntry {e e' : Value × Value} (h : nestEntry e = .ok e') :
    e'.1 = e.1 ∧ (KeysOnce e.2 → KeysOnce e'.2) := by
  obtain ⟨k, v⟩ := e
  cases v with
  | map entry =>
    obtain ⟨nested, hnested, hpair⟩ := bind_eq_ok.mp h
    obtain rfl := Except.ok.inj hpair
    exact ⟨rfl, keysOnce_nestContent hnested⟩
  | _ =>
    obtain rfl := Except.ok.inj h
    exact ⟨rfl, fun h => h⟩

theorem keysOnce_withContent {f : Fragment} {data : Fields} (h : withContent f = .ok data)
    (hf : KeysOnce (.map f.content)) : KeysOnce (.map data) := by
  rw [withContent_eq] at h
  split at h
  · obtain ⟨hkeys, hvalues⟩ := keysOnce_map_iff.mp hf
    have hentries := keysOnce_mapM_entries (fun _ _ => keysOnce_nestEntry) h
    exact .map (hentries.1 ▸ hkeys) (hentries.2 hvalues)
  · rw [← Except.ok.inj h]
    exact hf

theorem keys_withContent {f : Fragment} {data : Fields} (h : withContent f = .ok data) :
    Entries.keys data = Entries.keys f.content := by
  rw [withContent_eq] at h
  split at h
  · exact (keysOnce_mapM_entries (fun _ _ => keysOnce_nestEntry) h).1
  · rw [← Except.ok.inj h]

theorem keysOnce_reference (target : String) : KeysOnce (.reference target) :=
  KeysOnce.single (.leaf rfl) "$ref"

theorem keysOnce_nameSchema {response : Value} (h : KeysOnce response) :
    KeysOnce (nameSchema response) := by
  unfold nameSchema
  split
  · split
    · exact h.put _ (keysOnce_reference _)
    · exact h
  · exact h

/-- The entries of an operation with its identifier under its full name. -/
def identified (data : Fields) : Fields :=
  match Fields.get? "id" data with
  | some id =>
    if Fields.has "operationId" data then data
    else Fields.put "operationId" id (Fields.erase "id" data)
  | none => data

/-- The entries of an operation with the schemas of its responses by reference. -/
def withNamedSchemas (data : Fields) : Fields :=
  match Fields.get? "responses" data with
  | some (.map responses) =>
    Fields.put "responses" (.map (responses.map fun (k, v) => (k, nameSchema v))) data
  | some (.seq responses) => Fields.put "responses" (.seq (responses.map nameSchema)) data
  | _ => data

theorem withOperation_eq (f : Fragment) (data : Fields) :
    withOperation f data =
      if f.kind.isOperation then withNamedSchemas (identified data) else data := rfl

theorem keysOnce_identified {data : Fields} (h : KeysOnce (.map data)) :
    KeysOnce (.map (identified data)) := by
  unfold identified
  split
  · next id hid =>
    split
    · exact h
    · exact (h.sublist (Entries.erase_sublist _ _)).put _ (h.of_get? hid)
  · exact h

theorem keysOnce_withNamedSchemas {data : Fields} (h : KeysOnce (.map data)) :
    KeysOnce (.map (withNamedSchemas data)) := by
  unfold withNamedSchemas
  split
  · next responses hresponses =>
    obtain ⟨hkeys, hvalues⟩ := keysOnce_map_iff.mp (h.of_get? hresponses)
    refine h.put _ (.map ?_ fun e he => ?_)
    · rw [Entries.keys, List.map_map]
      exact hkeys
    · obtain ⟨e, hmem, rfl⟩ := List.mem_map.mp he
      exact keysOnce_nameSchema (hvalues e hmem)
  · exact h.put _ (.leaf rfl)
  · exact h

theorem keysOnce_withOperation (f : Fragment) {data : Fields} (h : KeysOnce (.map data)) :
    KeysOnce (.map (withOperation f data)) := by
  rw [withOperation_eq]
  split
  · exact keysOnce_withNamedSchemas (keysOnce_identified h)
  · exact h

theorem keysOnce_wrapped (f : Fragment) {data : Fields} (h : KeysOnce (.map data)) :
    KeysOnce (.map (wrapped f data)) := by
  rw [wrapped]
  split
  · exact KeysOnce.single ((h.single _).single _) "paths"
  · split
    · exact KeysOnce.single (h.single _) "components"
    · exact h

/-- What a fragment contributes writes each key once if its content does. -/
theorem keysOnce_unexpanded {f : Fragment} {data : Fields} (h : unexpanded f = .ok data)
    (hf : KeysOnce (.map f.content)) : KeysOnce (.map data) := by
  rw [unexpanded] at h
  cases hcontent : withContent f with
  | error failure => rw [hcontent] at h; cases h
  | ok content =>
    rw [hcontent] at h
    rw [← Except.ok.inj h]
    exact keysOnce_wrapped f (keysOnce_withOperation f (keysOnce_withContent hcontent hf))

end Fragment
end ApiTree
