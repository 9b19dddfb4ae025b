import ApiTree.Binary64.Shortest
import ApiTree.Calendar
import ApiTree.Entries

/-!
# Values

The values that documents are made of: those of JSON, and the further ones that YAML writes. A
mapping keeps the order of its entries. Fragments and documents have text keys only; a key may be
any scalar all the same, since an operation may name a media type by a number.

`Value.beq` is equality of values as data. `Value.eqv` is equality of what they denote: the integer
`1` and the number `1.0` are then equal, and so is the truth value `true` where it counts as a number.
-/

set_option autoImplicit false

namespace ApiTree

/-- A value of a document. -/
inductive Value where
  | null
  | bool (b : Bool)
  | int (i : Int)
  | float (x : Binary64)
  | str (s : String)
  | date (d : Date)
  | timestamp (t : Timestamp)
  | bytes (bs : List UInt8)
  | seq (items : List Value)
  | map (entries : List (Value × Value))
  | set (members : List Value)
  | pair (first second : Value)
  deriving Repr, Inhabited

/-- Entries of a mapping. -/
abbrev Fields := List (Value × Value)

instance : Coe String Value := ⟨Value.str⟩

namespace Value

mutual

/-- Equality of values as data. -/
def beq : Value → Value → Bool
  | .null, .null => true
  | .bool a, .bool b => a == b
  | .int a, .int b => a == b
  | .float a, .float b => a == b
  | .str a, .str b => a == b
  | .date a, .date b => a == b
  | .timestamp a, .timestamp b => a == b
  | .bytes a, .bytes b => a == b
  | .seq a, .seq b => beqList a b
  | .map a, .map b => beqEntries a b
  | .set a, .set b => beqList a b
  | .pair a b, .pair c d => beq a c && beq b d
  | _, _ => false

/-- Equality of lists of values as data. -/
def beqList : List Value → List Value → Bool
  | [], [] => true
  | a :: as, b :: bs => beq a b && beqList as bs
  | _, _ => false

/-- Equality of lists of entries as data. -/
def beqEntries : List (Value × Value) → List (Value × Value) → Bool
  | [], [] => true
  | (k, v) :: es, (l, w) :: fs => beq k l && beq v w && beqEntries es fs
  | _, _ => false

end

mutual

theorem eq_of_beq_value : ∀ {a b : Value}, beq a b = true → a = b
  | .null, b, h => by cases b <;> simp_all [beq]
  | .bool _, b, h => by cases b <;> simp_all [beq]
  | .int _, b, h => by cases b <;> simp_all [beq]
  | .float _, b, h => by cases b <;> simp_all [beq]
  | .str _, b, h => by cases b <;> simp_all [beq]
  | .date _, b, h => by cases b <;> simp_all [beq]
  | .timestamp _, b, h => by cases b <;> simp_all [beq]
  | .bytes _, b, h => by cases b <;> simp_all [beq]
  | .seq as, b, h => by
    cases b <;> simp only [beq, Bool.false_eq_true] at h
    case seq bs => rw [eq_of_beqList h]
  | .map as, b, h => by
    cases b <;> simp only [beq, Bool.false_eq_true] at h
    case map bs => rw [eq_of_beqEntries h]
  | .set as, b, h => by
    cases b <;> simp only [beq, Bool.false_eq_true] at h
    case set bs => rw [eq_of_beqList h]
  | .pair a b, c, h => by
    cases c <;> simp only [beq, Bool.false_eq_true, Bool.and_eq_true] at h
    case pair c d => rw [eq_of_beq_value h.1, eq_of_beq_value h.2]

theorem eq_of_beqList : ∀ {as bs : List Value}, beqList as bs = true → as = bs
  | [], [], _ => rfl
  | [], _ :: _, h => by simp [beqList] at h
  | _ :: _, [], h => by simp [beqList] at h
  | a :: as, b :: bs, h => by
    simp only [beqList, Bool.and_eq_true] at h
    rw [eq_of_beq_value h.1, eq_of_beqList h.2]

theorem eq_of_beqEntries :
    ∀ {es fs : List (Value × Value)}, beqEntries es fs = true → es = fs
  | [], [], _ => rfl
  | [], _ :: _, h => by simp [beqEntries] at h
  | _ :: _, [], h => by simp [beqEntries] at h
  | (k, v) :: es, (l, w) :: fs, h => by
    simp only [beqEntries, Bool.and_eq_true] at h
    rw [eq_of_beq_value h.1.1, eq_of_beq_value h.1.2, eq_of_beqEntries h.2]

end

mutual

theorem beq_self : ∀ a : Value, beq a a = true
  | .null => rfl
  | .bool _ | .int _ | .float _ | .str _ | .date _ | .timestamp _ | .bytes _ => by simp [beq]
  | .seq as => by rw [beq]; exact beqList_self as
  | .map es => by rw [beq]; exact beqEntries_self es
  | .set as => by rw [beq]; exact beqList_self as
  | .pair a b => by rw [beq, beq_self a, beq_self b]; rfl

theorem beqList_self : ∀ as : List Value, beqList as as = true
  | [] => rfl
  | a :: as => by rw [beqList, beq_self a, beqList_self as]; rfl

theorem beqEntries_self : ∀ es : List (Value × Value), beqEntries es es = true
  | [] => rfl
  | (k, v) :: es => by rw [beqEntries, beq_self k, beq_self v, beqEntries_self es]; rfl

end

theorem beq_iff_eq_value {a b : Value} : beq a b = true ↔ a = b :=
  ⟨eq_of_beq_value, fun h => h ▸ beq_self a⟩

instance : DecidableEq Value := fun _ _ => decidable_of_iff _ beq_iff_eq_value

mutual

/-- Equality of what two values denote. Numbers compare by number, mappings and sets without regard to
order. If `mixed`, a truth value is the number zero or one. -/
def eqv (mixed : Bool) : Value → Value → Bool
  | .null, .null => true
  | .bool a, .bool b => a == b
  | .bool a, .int b => mixed && (if a then 1 else 0) == b
  | .bool a, .float b => mixed && b.eqvInt (if a then 1 else 0)
  | .int a, .bool b => mixed && a == if b then 1 else 0
  | .int a, .int b => a == b
  | .int a, .float b => b.eqvInt a
  | .float a, .bool b => mixed && a.eqvInt (if b then 1 else 0)
  | .float a, .int b => a.eqvInt b
  | .float a, .float b => a.eqv b
  | .str a, .str b => a == b
  | .date a, .date b => a == b
  | .timestamp a, .timestamp b => a.eqv b
  | .bytes a, .bytes b => a == b
  | .seq a, .seq b => eqvList mixed a b
  | .map a, .map b => a.length == b.length && eqvEntries mixed a b
  | .set a, .set b => a.length == b.length && eqvMembers mixed a b
  | .pair a b, .pair c d => eqv mixed a c && eqv mixed b d
  | _, _ => false

/-- Elements denote the same in order. -/
def eqvList (mixed : Bool) : List Value → List Value → Bool
  | [], [] => true
  | a :: as, b :: bs => eqv mixed a b && eqvList mixed as bs
  | _, _ => false

/-- Each entry of the first mapping has an entry in the second that denotes the same. -/
def eqvEntries (mixed : Bool) : List (Value × Value) → List (Value × Value) → Bool
  | [], _ => true
  | (k, v) :: es, fs =>
    (match fs.find? fun f => eqv mixed k f.1 with
     | some f => eqv mixed v f.2
     | none => false) && eqvEntries mixed es fs

/-- Each member of the first set is a member of the second. -/
def eqvMembers (mixed : Bool) : List Value → List Value → Bool
  | [], _ => true
  | a :: as, bs => bs.any (eqv mixed a) && eqvMembers mixed as bs

end

/-- Two keys are one key of a mapping that is being built. -/
def sameKey (a b : Value) : Bool := eqv true a b

/-- The value counts as present where a condition asks for one: it is not null, false, zero or
empty. -/
def isTruthy : Value → Bool
  | .null => false
  | .bool b => b
  | .int i => i != 0
  | .float x => !x.isZero
  | .str s => s != ""
  | .bytes bs => !bs.isEmpty
  | .seq items => !items.isEmpty
  | .map entries => !entries.isEmpty
  | .set members => !members.isEmpty
  | .date _ | .timestamp _ | .pair _ _ => true

/-- The value can be a key: it holds no sequence, mapping or set. -/
def isKey : Value → Bool
  | .seq _ | .map _ | .set _ => false
  | .pair a b => isKey a && isKey b
  | _ => true

/-- The value is null. -/
def isNull : Value → Bool
  | .null => true
  | _ => false

/-- The value is a mapping. -/
def isMap : Value → Bool
  | .map _ => true
  | _ => false

/-- The value is a text. -/
def isStr : Value → Bool
  | .str _ => true
  | _ => false

/-- The entry of a mapping at a text key. -/
def member? (v : Value) (key : String) : Option Value :=
  match v with
  | .map entries => Entries.get? (.str key) entries
  | _ => none

/-- The value, with null standing for its absence. -/
def ofOption (v : Option Value) : Value :=
  v.getD .null

/-- A mapping with one entry. -/
def single (key : String) (v : Value) : Value :=
  .map [(.str key, v)]

/-- A reference to another place of the document. -/
def reference (target : String) : Value :=
  single "$ref" (.str target)

end Value

/-! ## Entries at text keys -/

namespace Fields

/-- The value at a text key. -/
def get? (key : String) (entries : Fields) : Option Value := Entries.get? (.str key) entries

/-- The text key is present. -/
def has (key : String) (entries : Fields) : Bool := Entries.has (.str key) entries

/-- The value at a text key, or null. -/
def getD (key : String) (entries : Fields) : Value := Value.ofOption (get? key entries)

/-- The entries after writing a value at a text key. -/
def put (key : String) (v : Value) (entries : Fields) : Fields := Entries.put (.str key) v entries

/-- The entries after writing a value at a text key unless the key is present. -/
def putNew (key : String) (v : Value) (entries : Fields) : Fields :=
  Entries.putNew (.str key) v entries

/-- The entries without a text key. -/
def erase (key : String) (entries : Fields) : Fields := Entries.erase (.str key) entries

/-- The entries of the given text keys that are present, in the order of `keys`. -/
def pick (keys : List String) (entries : Fields) : Fields :=
  Entries.pick (keys.map .str) entries

end Fields
end ApiTree
