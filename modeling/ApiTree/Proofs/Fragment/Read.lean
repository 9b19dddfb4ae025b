import ApiTree.Fragment.Load
import ApiTree.Proofs.Yaml.Node
import ApiTree.Proofs.Yaml.Token
import ApiTree.Proofs.Yaml.Trouble

/-!
# How reading a fragment ends

Reading a file gives a mapping, or a fault that names the file, or a failure that has no message.
`Fragment.Fails` says which files end in the third way: bytes that are no text, an escape that names
no character, a scalar that does not have the type it claims, a mapping that contains itself, and a
key that cannot be written as text.
-/

set_option autoImplicit false

namespace ApiTree.Fragment

/-- The text is read as YAML: it holds no reference without its blank and only characters that a
document may hold. -/
def IsScanned (text : String) : Prop :=
  Text.contains text badReference = false ∧ text.toList.all Yaml.isAllowed = true

/-- The document of the text. -/
def HasRoot (text : String) (n : Yaml.Node) : Prop :=
  Yaml.Node.ofTokens (Yaml.Token.ofText text.toList) = .ok (some n)

/-- The mapping of the text as it is built, and whether it contains itself. -/
def Builds (text : String) (entries : Fields) (endless : Bool) : Prop :=
  ∃ n, HasRoot text n ∧ Yaml.Meaning.node n.height n = .ok (.map entries) ∧ n.isEndless = endless

/-- The text ends its own reading with a failure that has no message. -/
inductive TextFails (text : String) : Failure → Prop where
  /-- An escape names no character, and no rule is broken before it. -/
  | escape {f : Failure} (hescape : Yaml.HasEscape text.toList f)
      (hreached : Yaml.Node.ofTokens (Yaml.Token.ofText text.toList) = .error (.failure f)) :
      TextFails text f
  /-- A scalar does not have the type it claims, and no error before it in the order of levels
  counts. -/
  | scalar {n : Yaml.Node} {d : Nat} {f : Failure} {before after : List Yaml.Meaning.Trouble}
      (hmisfit : Yaml.Meaning.Misfit f) (hroot : HasRoot text n)
      (htroubles : Yaml.Meaning.troubles n.height n = before ++ (d, .failure f) :: after)
      (hbefore : ∀ t ∈ before, d < t.1) (hafter : ∀ t ∈ after, d ≤ t.1) : TextFails text f
  /-- The mapping contains itself. -/
  | endless {entries : Fields} (h : Builds text entries true) : TextFails text .endless
  /-- A key has more digits than can be written. -/
  | longKey {entries : Fields} (h : Builds text entries false)
      (hkeys : Value.entryKeysHaveText entries = false) : TextFails text .badValue

/-- A file ends its reading with a failure that has no message. -/
inductive Fails (disk : Disk) (path : FilePath) : Failure → Prop where
  /-- Its bytes are no text. -/
  | bytes {content : ByteArray} (hread : disk.read path = .ok content)
      (htext : String.fromUTF8? content = none) : Fails disk path .notText
  | text {content : ByteArray} {text : String} {f : Failure} (hread : disk.read path = .ok content)
      (htext : decode content = .ok text) (hscanned : IsScanned text) (hfails : TextFails text f) :
      Fails disk path f

/-- The fault is one of reading, and names the file. -/
def Names (fault : Fault) (path : FilePath) : Prop :=
  ∃ report dump, fault.report? = some report ∧ .parse ∈ report.kind.lineage ∧
    report.detail = .source path.render dump

section Text

variable {text path : String} {f : Failure} {entries : Fields} {endless : Bool}

theorem yamlRead_eq_failure_iff (h : text.toList.all Yaml.isAllowed = true) :
    Yaml.read text.toList = .error (.failure f) ↔
      Yaml.Node.ofTokens (Yaml.Token.ofText text.toList) = .error (.failure f) ∨
        ∃ n d, HasRoot text n ∧
          Yaml.Meaning.first (Yaml.Meaning.troubles n.height n) = some (d, .failure f) := by
  rw [Yaml.read, if_pos h]
  -- a text without tokens, without a document, or with the root `n`
  rcases hroot : Yaml.Node.ofTokens (Yaml.Token.ofText text.toList) with e | (- | n)
  · simp [HasRoot, hroot]
  · simp [HasRoot, hroot]
  · have htrouble := Yaml.Meaning.trouble?_node n.height n
    rcases hvalue : Yaml.Meaning.node n.height n with ⟨d, e⟩ | v <;>
      rw [hvalue] at htrouble <;>
      simp [HasRoot, hroot, hvalue, ← htrouble, Yaml.Meaning.trouble?]

theorem yamlRead_eq_map_iff (h : text.toList.all Yaml.isAllowed = true) :
    Yaml.read text.toList = .ok ⟨.map entries, endless⟩ ↔ Builds text entries endless := by
  rw [Yaml.read, if_pos h, Builds]
  rcases hroot : Yaml.Node.ofTokens (Yaml.Token.ofText text.toList) with e | (- | n)
  · simp [HasRoot, hroot]
  · simp [HasRoot, hroot]
  · rcases hvalue : Yaml.Meaning.node n.height n with ⟨d, e⟩ | v <;> simp [HasRoot, hroot, hvalue]

/-- A text fails exactly on one of its scalars, escapes or keys, or on containing itself. -/
theorem textFails_iff (h : text.toList.all Yaml.isAllowed = true) :
    TextFails text f ↔ Yaml.read text.toList = .error (.failure f) ∨
      (∃ entries, Yaml.read text.toList = .ok ⟨.map entries, true⟩ ∧ f = .endless) ∨
      ∃ entries, Yaml.read text.toList = .ok ⟨.map entries, false⟩ ∧
        Value.entryKeysHaveText entries = false ∧ f = .badValue := by
  simp only [yamlRead_eq_failure_iff h, yamlRead_eq_map_iff h]
  constructor
  · intro hfails
    cases hfails with
    | escape hescape hreached => exact .inl (.inl hreached)
    | scalar hmisfit hroot htroubles hbefore hafter =>
      exact .inl (.inr ⟨_, _, hroot,
        Yaml.Meaning.first_eq_some_iff.mpr ⟨_, _, htroubles, hbefore, hafter⟩⟩)
    | endless hbuilds => exact .inr (.inl ⟨_, hbuilds, rfl⟩)
    | longKey hbuilds hkeys => exact .inr (.inr ⟨_, hbuilds, hkeys, rfl⟩)
  · rintro ((hreached | ⟨n, d, hroot, hfirst⟩) | ⟨entries, hbuilds, rfl⟩ |
      ⟨entries, hbuilds, hkeys, rfl⟩)
    · exact .escape (Yaml.hasEscape_of_mem_ofText (Yaml.Node.mem_of_ofTokens hreached)) hreached
    · obtain ⟨before, after, htroubles, hbefore, hafter⟩ :=
        Yaml.Meaning.first_eq_some_iff.mp hfirst
      have hmem : (d, .failure f) ∈ Yaml.Meaning.troubles n.height n := by
        rw [htroubles]
        simp
      exact .scalar (Yaml.Meaning.misfit_of_mem_troubles hmem) hroot htroubles hbefore hafter
    · exact .endless hbuilds
    · exact .longKey hbuilds hkeys

theorem parse_eq_failed_iff :
    parse path text = .error (.failed f) ↔ IsScanned text ∧ TextFails text f := by
  by_cases href : Text.contains text badReference = true
  · simp [parse, IsScanned, href]
  by_cases hallowed : text.toList.all Yaml.isAllowed = true
  · rw [textFails_iff hallowed, IsScanned, parse, if_neg href]
    rcases hread : Yaml.read text.toList with (p | g) | ⟨v, endless⟩
    · simp
    · simp [href, hallowed]
    -- of the values only a mapping goes through the two checks; any other root is a fault
    · rcases v with - | - | - | - | - | - | - | - | - | entries | - | -
      case map =>
        cases endless with
        | true => simpa [href, hallowed] using eq_comm
        | false =>
          cases hkeys : Value.entryKeysHaveText entries with
          | true => simp [hkeys]
          | false => simpa [href, hallowed, hkeys] using eq_comm
      all_goals simp
  · have hread : Yaml.read text.toList = .error (.problem .unprintable) := by
      rw [Yaml.read, if_neg hallowed]
    simp [parse, IsScanned, href, hallowed, hread]

theorem names_of_report {path : FilePath} {fault : Fault} {report : FaultReport} {dump : String}
    (h : fault.report? = some report)
    (hkind : report.kind = .parse ∨ report.kind = .referenceSyntax)
    (hdetail : report.detail = .source path.render dump) : Names fault path := by
  refine ⟨report, dump, h, ?_, hdetail⟩
  rcases hkind with hkind | hkind <;> rw [hkind] <;> decide

theorem names_of_parse {path : FilePath} {fault : Fault}
    (h : parse path.render text = .error fault) : (∃ f, fault = .failed f) ∨ Names fault path := by
  rw [parse] at h
  split at h
  · obtain rfl := Except.error.inj h
    exact .inr (names_of_report rfl (.inr rfl) rfl)
  split at h
  · obtain rfl := Except.error.inj h
    exact .inr (names_of_report rfl (.inl rfl) rfl)
  · exact .inl ⟨_, (Except.error.inj h).symm⟩
  · split at h
    · exact .inl ⟨_, (Except.error.inj h).symm⟩
    split at h
    · exact .inl ⟨_, (Except.error.inj h).symm⟩
    · cases h
  · obtain rfl := Except.error.inj h
    exact .inr (names_of_report rfl (.inl rfl) rfl)

end Text

section File

variable {disk : Disk} {path : FilePath}

theorem read_eq_failed_iff {f : Failure} :
    read disk path = .error (.failed f) ↔ Fails disk path f := by
  have hfails : Fails disk path f ↔ ∃ content, disk.read path = .ok content ∧
      (String.fromUTF8? content = none ∧ f = .notText ∨
        ∃ text, decode content = .ok text ∧ IsScanned text ∧ TextFails text f) := by
    constructor
    · rintro (⟨hread, htext⟩ | ⟨hread, htext, hscanned, hfails⟩)
      · exact ⟨_, hread, .inl ⟨htext, rfl⟩⟩
      · exact ⟨_, hread, .inr ⟨_, htext, hscanned, hfails⟩⟩
    · rintro ⟨content, hread, ⟨htext, rfl⟩ | ⟨text, htext, hscanned, hfails⟩⟩
      · exact .bytes hread htext
      · exact .text hread htext hscanned hfails
  rw [hfails, read]
  cases hread : disk.read path with
  | error g => simp
  | ok content =>
    -- newlines are unified after the bytes are text, so they cannot make the reading fail
    cases htext : String.fromUTF8? content with
    | none =>
      have hdecode : decode content = .error (.failed .notText) := by rw [decode, htext]
      simpa [hdecode, htext, bind, Except.bind] using eq_comm
    | some s =>
      have hdecode : decode content = .ok (String.ofList (Text.unifyNewlines s.toList)) := by
        rw [decode, htext]
      simp [hdecode, htext, bind, Except.bind, parse_eq_failed_iff]

theorem names_of_read {fault : Fault} (h : read disk path = .error fault) :
    (∃ f, fault = .failed f) ∨ Names fault path := by
  rw [read] at h
  cases hread : disk.read path with
  | error g =>
    rw [hread] at h
    obtain rfl := Except.error.inj h
    exact .inr (names_of_report rfl (.inl rfl) rfl)
  | ok content =>
    rw [hread] at h
    cases hdecode : decode content with
    | error g =>
      simp only [hdecode] at h
      obtain rfl := Except.error.inj h
      refine .inl ?_
      rw [decode] at hdecode
      split at hdecode
      · cases hdecode
      · exact ⟨_, (Except.error.inj hdecode).symm⟩
    | ok text =>
      simp only [hdecode] at h
      exact names_of_parse h

/-- A failure that has no message names no file. -/
theorem not_names_failed (f : Failure) : ¬ Names (.failed f) path := fun ⟨_, _, h, _⟩ => by cases h

theorem fst_collect_readLogged : (readLogged disk path).collect.1 = read disk path := by
  rw [readLogged]
  cases read disk path with
  | ok fields => rfl
  | error fault => cases fault <;> rfl

end File

/-- A file that names a thirteenth month. -/
def thirteenthMonth : Disk := ⟨["w"], [(["w", "input.yml"], .file "a: 2021-13-45\n".toUTF8)]⟩

end ApiTree.Fragment
