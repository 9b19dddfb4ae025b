import ApiTree.Operation.View.Body
import ApiTree.Proofs.Except
import ApiTree.Proofs.Text.Cut
import ApiTree.Proofs.Text.Numeral
import ApiTree.Proofs.Value.Merge

/-!
# Reading pointers

A pointer is read by cutting it at its slashes and decoding what stands between them: first `~1` to a
slash, and then `~0` to a tilde. A key that was escaped is decoded to itself (`decode_escape`), so
that the pointer to a place is read back as the texts of the steps to it (`decode_write`). The tokens
lead into a document one after another, to keys of mappings and to positions in lists, and a pointer
that is put together from pieces without slashes leads where their decoded forms lead
(`resolve?_intercalate`).
-/

set_option autoImplicit false

namespace ApiTree.Pointer

/-! ## Decoding -/

/-- The characters with each tilde before the given digit, and the digit with it, replaced. -/
def replacePair (digit new : Char) : List Char → List Char
  | c :: d :: cs =>
    if c = '~' ∧ d = digit then new :: replacePair digit new cs
    else c :: replacePair digit new (d :: cs)
  | cs => cs

/-- The key that a token stands for. The order of the two replacements counts: `~01` is `~1`. -/
def decode (token : List Char) : List Char := replacePair '0' '~' (replacePair '1' '/' token)

section

variable {digit new c : Char} {cs : List Char}

theorem replacePair_pair : replacePair digit new ('~' :: digit :: cs) =
    new :: replacePair digit new cs := by
  rw [replacePair, if_pos ⟨rfl, rfl⟩]

/-- A character that starts no pair stays. -/
theorem replacePair_cons (h : c = '~' → cs.head? ≠ some digit) :
    replacePair digit new (c :: cs) = c :: replacePair digit new cs := by
  cases cs with
  | nil => rfl
  | cons d cs =>
    rw [replacePair, if_neg]
    rintro ⟨hc, rfl⟩
    exact h hc rfl

/-- Replacing brings no other character to the front than the new one. -/
theorem head?_replacePair (hnew : new ≠ c) (h : cs.head? ≠ some c) :
    (replacePair digit new cs).head? ≠ some c := by
  cases cs with
  | nil => exact h
  | cons b cs =>
    by_cases hpair : b = '~' ∧ cs.head? = some digit
    · obtain ⟨rfl, hdigit⟩ := hpair
      obtain ⟨rest, rfl⟩ := List.head?_eq_some_iff.mp hdigit
      rw [replacePair_pair, List.head?_cons]
      simpa using hnew
    · rw [replacePair_cons fun hb hdigit => hpair ⟨hb, hdigit⟩, List.head?_cons]
      exact h

end

/-- Both replacements can be made in one pass. -/
theorem decode_eq_unescape (token : List Char) : decode token = OperationView.unescape token := by
  induction token using OperationView.unescape.induct with
  | case1 cs ih =>
    rw [OperationView.unescape, ← ih, decode, replacePair_pair,
      replacePair_cons fun h => absurd h (by decide)]
    rfl
  | case2 cs ih =>
    have hfirst : replacePair '1' '/' ('~' :: '0' :: cs) =
        '~' :: '0' :: replacePair '1' '/' cs := by
      rw [replacePair_cons fun _ => by simp, replacePair_cons fun h => absurd h (by decide)]
    rw [OperationView.unescape, ← ih, decode, hfirst, replacePair_pair]
    rfl
  | case3 c cs hslash htilde ih =>
    have hone : c = '~' → cs.head? ≠ some '1' := by
      intro hc hhead
      obtain ⟨rest, hrest⟩ := List.head?_eq_some_iff.mp hhead
      exact hslash rest hc hrest
    have hzero : c = '~' → cs.head? ≠ some '0' := by
      intro hc hhead
      obtain ⟨rest, hrest⟩ := List.head?_eq_some_iff.mp hhead
      exact htilde rest hc hrest
    -- a slash that the first replacement puts in makes no pair for the second
    rw [OperationView.unescape.eq_3 _ _ hslash htilde, ← ih, decode, replacePair_cons hone,
      replacePair_cons fun hc => head?_replacePair (by decide) (hzero hc)]
    rfl
  | case4 => rfl

theorem decode_escapeChar (c : Char) (token : List Char) :
    decode (escapeChar c ++ token) = c :: decode token := by
  rw [decode_eq_unescape, decode_eq_unescape, escapeChar]
  split
  · next hc => rw [hc]; rfl
  · split
    · next hc => rw [hc]; rfl
    · next htilde _ =>
      -- only a tilde starts an escaped character
      rw [List.singleton_append, OperationView.unescape.eq_3]
      · intro _ heq
        exact absurd heq htilde
      · intro _ heq
        exact absurd heq htilde

/-- A key that was escaped is decoded to itself. -/
theorem decode_escape (key : String) : decode (escape key).toList = key.toList := by
  rw [escape, String.toList_ofList]
  induction key.toList with
  | nil => rfl
  | cons c cs ih => rw [List.flatMap_cons, decode_escapeChar, ih]

/-- A key that was escaped holds no slash. -/
theorem noSlash_escape (key : String) : '/' ∉ (escape key).toList := by
  rw [escape, String.toList_ofList, List.mem_flatMap]
  rintro ⟨c, -, hc⟩
  rw [escapeChar] at hc
  split at hc
  · exact absurd hc (by decide)
  · split at hc
    · exact absurd hc (by decide)
    · next hslash => exact hslash (List.mem_singleton.mp hc).symm

/-! ## The pointer to a place -/

section

variable {steps others : List Step}

theorem toText_index (position : Int) :
    (Step.index position).toText =
      if (Nat.toDigits 10 position.natAbs).length ≤ Text.maxDigits then .ok (toString position)
      else .error .badValue := by
  have hdigits : (Value.int position).hasLiteral = true ↔
      (Nat.toDigits 10 position.natAbs).length ≤ Text.maxDigits := by
    rw [Value.hasLiteral, decide_eq_true_eq]
    exact Text.lt_pow_iff_length_toDigits_le (by decide)
  rw [Step.toText, Value.toText]
  simp only [hdigits]
  rfl

theorem eq_text_of_toText {s : Step} {text : String} (h : s.toText = .ok text) : text = s.text := by
  cases s with
  | key name => exact (Except.ok.inj h).symm
  | index position =>
    rw [toText_index] at h
    split at h
    · exact (Except.ok.inj h).symm
    · cases h

/-- Of the steps to a place only positions may be too long. -/
theorem succeeds_mapM_toText :
    Succeeds (steps.mapM Step.toText) ↔ ∀ position, Step.index position ∈ steps →
      (Nat.toDigits 10 position.natAbs).length ≤ Text.maxDigits := by
  rw [succeeds_mapM]
  constructor
  · intro h position hmem
    obtain ⟨text, htext⟩ := h _ hmem
    rw [toText_index] at htext
    by_contra hlong
    rw [if_neg hlong] at htext
    cases htext
  · intro h s hmem
    cases s with
    | key name => exact ⟨name, rfl⟩
    | index position => exact ⟨toString position, by rw [toText_index, if_pos (h position hmem)]⟩

theorem eq_map_text_of_mapM {texts : List String} (h : steps.mapM Step.toText = .ok texts) :
    texts = steps.map (·.text) := by
  induction steps generalizing texts with
  | nil => exact (Except.ok.inj h).symm
  | cons s steps ih =>
    rw [List.mapM_cons] at h
    obtain ⟨text, htext, h⟩ := bind_eq_ok.mp h
    obtain ⟨rest, hrest, h⟩ := bind_eq_ok.mp h
    obtain rfl := Except.ok.inj h
    rw [List.map_cons, eq_text_of_toText htext, ih hrest]

/-- A pointer that can be written is the one that messages show. -/
theorem write_eq_ok {pointer : String} :
    write steps = .ok pointer ↔
      steps.mapM Step.toText = .ok (steps.map (·.text)) ∧ pointer = render steps := by
  rw [write, bind_eq_ok]
  constructor
  · rintro ⟨texts, htexts, hpointer⟩
    obtain rfl := eq_map_text_of_mapM htexts
    exact ⟨htexts, (Except.ok.inj hpointer).symm⟩
  · rintro ⟨htexts, rfl⟩
    exact ⟨_, htexts, rfl⟩

/-- What stands between the slashes of a pointer is decoded to the texts of the steps. The place of
the whole document is left out: its pointer is that of an empty key. -/
theorem map_decode_splitWhere (hne : steps ≠ []) :
    (Text.splitWhere (· == '/')
        (String.intercalate "/" (steps.map fun s => escape s.text)).toList).map
      (fun token => String.ofList (decode token)) = steps.map (·.text) := by
  have hslash : ∀ piece ∈ steps.map fun s => escape s.text, '/' ∉ piece.toList := by
    rw [List.forall_mem_map]
    exact fun s _ => noSlash_escape s.text
  -- so the pointer is cut between the steps and nowhere else
  have hpieces : steps.map (fun s => escape s.text) ≠ [] := mt List.map_eq_nil_iff.mp hne
  rw [Text.splitWhere_intercalate hpieces hslash, List.map_map, List.map_map]
  apply List.map_congr_left
  intro s _
  rw [Function.comp_apply, Function.comp_apply, decode_escape, String.ofList_toList]

theorem map_text_eq_of_render_eq (hne : steps ≠ []) (hne' : others ≠ [])
    (h : render steps = render others) : steps.map (·.text) = others.map (·.text) := by
  have hbody : String.intercalate "/" (steps.map fun s => escape s.text) =
      String.intercalate "/" (others.map fun s => escape s.text) :=
    (String.append_right_inj "#/").mp h
  rw [← map_decode_splitWhere hne, hbody, map_decode_splitWhere hne']

end

/-- A place whose steps hold slashes and tildes, positions and an empty key. -/
def placeWithSlashes : List Step := [.key "/api/~1", .index 12, .key "", .key "~01/~", .index (-1)]

/-- The keys with the same texts. -/
def keysWithSlashes : List Step :=
  [.key "/api/~1", .key "12", .key "", .key "~01/~", .key "-1"]

theorem mapM_toText_placeWithSlashes :
    placeWithSlashes.mapM Step.toText = .ok ["/api/~1", "12", "", "~01/~", "-1"] := by
  have htwelve : (Step.index 12).toText = .ok "12" := by
    rw [toText_index, if_pos (by decide)]
    rfl
  have hminus : (Step.index (-1)).toText = .ok "-1" := by
    rw [toText_index, if_pos (by decide)]
    rfl
  simp only [placeWithSlashes, List.mapM_cons, List.mapM_nil, htwelve, hminus]
  rfl

/-- The tokens of a pointer, each decoded. A pointer starts with the sign of a fragment. -/
def tokens? (pointer : String) : Option (List String) :=
  match Text.splitWhere (· == '/') pointer.toList with
  | ['#'] :: pieces => some (pieces.map fun piece => String.ofList (decode piece))
  | _ => none

/-- The value that a token leads to: to a key of a mapping or to a position in a list. -/
def step? (v : Value) (token : String) : Option Value :=
  match v with
  | .map entries => Entries.get? (.str token) entries
  | .seq items => (items.zipIdx.find? fun e => toString e.2 == token).map Prod.fst
  | _ => none

/-- The value that a pointer leads to in a document. -/
def resolve? (pointer : String) (document : Value) : Option Value := do
  (← tokens? pointer).foldlM step? document

/-- The pieces of a pointer are its tokens. -/
theorem tokens?_intercalate {pieces : List String} (h : ∀ piece ∈ pieces, '/' ∉ piece.toList) :
    tokens? (String.intercalate "/" ("#" :: pieces)) =
      some (pieces.map fun piece => String.ofList (decode piece.toList)) := by
  have hpieces : ∀ piece ∈ "#" :: pieces, '/' ∉ piece.toList :=
    List.forall_mem_cons.mpr ⟨by decide, h⟩
  rw [tokens?, Text.splitWhere_intercalate (List.cons_ne_nil _ _) hpieces, List.map_cons]
  change some ((pieces.map String.toList).map _) = _
  rw [List.map_map]
  rfl

/-- Keys of mappings are tokens. -/
theorem foldlM_step?_of_at? {v w : Value} {place : List String} (h : v.at? place = some w) :
    place.foldlM step? v = some w := by
  induction place generalizing v with
  | nil => exact h
  | cons key place ih =>
    obtain ⟨u, hu, hrest⟩ := Option.bind_eq_some_iff.mp h
    cases v with
    | map entries =>
      have hstep : step? (.map entries) key = some u := hu
      rw [List.foldlM_cons, hstep]
      exact ih hrest
    | _ => cases hu

/-- A pointer that is put together from pieces leads where the decoded pieces lead as keys. -/
theorem resolve?_intercalate {pieces : List String} (h : ∀ piece ∈ pieces, '/' ∉ piece.toList)
    {document v : Value}
    (hv : document.at? (pieces.map fun piece => String.ofList (decode piece.toList)) = some v) :
    resolve? (String.intercalate "/" ("#" :: pieces)) document = some v := by
  rw [resolve?, tokens?_intercalate h]
  exact foldlM_step?_of_at? hv

end ApiTree.Pointer
