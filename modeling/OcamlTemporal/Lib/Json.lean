import Mathlib.Data.List.Sort
import Mathlib.Data.UInt
import OcamlTemporal.Lib.SelfDelimiting

/-!
# OcamlTemporal.Lib.Json

JSON trees over byte strings, their text, and what the text of a tree keeps of it.

* `Json.text` writes a tree without white space. The printers in use differ in one byte
  only, `0x7F`, which may be escaped or not; the flag `del` says which.
* `Json.normalize` sorts the members of every object by key; `(t.normalize).text` is the
  canonical text of `t`.
* `Json.strict` is a check made at every number, string and key of a tree, with no
  fraction and no repeated key; `Json.depth`, `Json.containers` and `Json.nodes` measure
  the tree.
* `Json.read` is a reader for the texts that `Json.text` writes (`read_text`).
-/

namespace OcamlTemporal.Lib

/-- A JSON value. A number that is not an integer keeps its literal. -/
inductive Json
  | null
  | bool (b : Bool)
  | int (n : Int)
  | float (literal : List UInt8)
  | str (s : List UInt8)
  | arr (items : List Json)
  | obj (members : List (List UInt8 × Json))

namespace Json

/-- Induction on a tree, with the hypothesis for every item and every member. -/
@[induction_eliminator]
theorem induction {motive : Json → Prop} (null : motive .null) (bool : ∀ b, motive (.bool b))
    (int : ∀ n, motive (.int n)) (float : ∀ l, motive (.float l)) (str : ∀ s, motive (.str s))
    (arr : ∀ items, (∀ t ∈ items, motive t) → motive (.arr items))
    (obj : ∀ members, (∀ m ∈ members, motive m.2) → motive (.obj members)) (t : Json) :
    motive t :=
  @Json.rec motive (fun items => ∀ t ∈ items, motive t) (fun members => ∀ m ∈ members, motive m.2)
    (fun m => motive m.2) null bool int float str arr obj
    (fun _ h => absurd h List.not_mem_nil)
    (fun _ _ hhead htail => List.forall_mem_cons.mpr ⟨hhead, htail⟩)
    (fun _ h => absurd h List.not_mem_nil)
    (fun _ _ hhead htail => List.forall_mem_cons.mpr ⟨hhead, htail⟩)
    (fun _ _ h => h) t

/-! ## The text of a tree -/

def hexDigit (n : UInt8) : UInt8 := if n < 10 then 48 + n else 87 + n

/-- A byte as it stands between the quotes of a string. -/
def escape (del : Bool) (b : UInt8) : List UInt8 :=
  if b = 34 then [92, 34]
  else if b = 92 then [92, 92]
  else if b = 8 then [92, 98]
  else if b = 9 then [92, 116]
  else if b = 10 then [92, 110]
  else if b = 12 then [92, 102]
  else if b = 13 then [92, 114]
  else if b < 32 ∨ del = true ∧ b = 127 then [92, 117, 48, 48, hexDigit (b / 16), hexDigit (b % 16)]
  else [b]

def quote (del : Bool) (s : List UInt8) : List UInt8 := 34 :: (s.flatMap (escape del) ++ [34])

def intText : Int → List UInt8
  | .ofNat n => decimal n
  | .negSucc n => 45 :: decimal (n + 1)

mutual

/-- The text of a tree, without white space. -/
def text (del : Bool) : Json → List UInt8
  | .null => [110, 117, 108, 108]
  | .bool true => [116, 114, 117, 101]
  | .bool false => [102, 97, 108, 115, 101]
  | .int n => intText n
  | .float literal => literal
  | .str s => quote del s
  | .arr items => 91 :: (itemsText del true items ++ [93])
  | .obj members => 123 :: (membersText del true members ++ [125])

/-- The items with a comma between them: `first` says that none stands before these. -/
def itemsText (del : Bool) (first : Bool) : List Json → List UInt8
  | [] => []
  | t :: ts => (if first then [] else [44]) ++ (text del t ++ itemsText del false ts)

def membersText (del : Bool) (first : Bool) : List (List UInt8 × Json) → List UInt8
  | [] => []
  | (k, t) :: ms =>
    (if first then [] else [44]) ++ (quote del k ++ 58 :: (text del t ++ membersText del false ms))

end

/-! ## Checks on a tree -/

mutual

/-- No fraction, no repeated key, and the given checks at every integer and every text,
the keys included. -/
def strict (okInt : Int → Bool) (okText : List UInt8 → Bool) : Json → Bool
  | .null => true
  | .bool _ => true
  | .int n => okInt n
  | .float _ => false
  | .str s => okText s
  | .arr items => strictItems okInt okText items
  | .obj members => decide (members.map Prod.fst).Nodup && strictMembers okInt okText members

def strictItems (okInt : Int → Bool) (okText : List UInt8 → Bool) : List Json → Bool
  | [] => true
  | t :: ts => strict okInt okText t && strictItems okInt okText ts

def strictMembers (okInt : Int → Bool) (okText : List UInt8 → Bool) :
    List (List UInt8 × Json) → Bool
  | [] => true
  | (k, t) :: ms => okText k && strict okInt okText t && strictMembers okInt okText ms

end

section Strict

variable {okInt : Int → Bool} {okText : List UInt8 → Bool}

theorem strictItems_iff {items : List Json} :
    strictItems okInt okText items = true ↔ ∀ t ∈ items, t.strict okInt okText = true := by
  induction items with
  | nil => simp [strictItems]
  | cons t ts ih => simp [strictItems, ih]

theorem strictMembers_iff {members : List (List UInt8 × Json)} :
    strictMembers okInt okText members = true ↔
      ∀ m ∈ members, okText m.1 = true ∧ m.2.strict okInt okText = true := by
  induction members with
  | nil => simp [strictMembers]
  | cons m ms ih => simp [strictMembers, ih]

theorem strict_arr {items : List Json} :
    (arr items).strict okInt okText = true ↔ ∀ t ∈ items, t.strict okInt okText = true := by
  rw [strict, strictItems_iff]

theorem strict_obj {members : List (List UInt8 × Json)} :
    (obj members).strict okInt okText = true ↔
      (members.map Prod.fst).Nodup ∧
        ∀ m ∈ members, okText m.1 = true ∧ m.2.strict okInt okText = true := by
  rw [strict, Bool.and_eq_true, decide_eq_true_iff, strictMembers_iff]

theorem strict_mono {okInt' : Int → Bool} {okText' : List UInt8 → Bool}
    (hint : ∀ n, okInt n = true → okInt' n = true)
    (htext : ∀ s, okText s = true → okText' s = true) {t : Json}
    (h : t.strict okInt okText = true) : t.strict okInt' okText' = true := by
  induction t with
  | null => rfl
  | bool b => rfl
  | int n => exact hint n h
  | float l => exact h
  | str s => exact htext s h
  | arr items ih => exact strict_arr.mpr fun t ht => ih t ht (strict_arr.mp h t ht)
  | obj members ih =>
    obtain ⟨hkeys, hmembers⟩ := strict_obj.mp h
    exact strict_obj.mpr ⟨hkeys, fun m hm =>
      ⟨htext _ (hmembers m hm).1, ih m hm (hmembers m hm).2⟩⟩

end Strict

mutual

/-- The height of a tree in which a scalar counts `leaf`: every collection on the way to it
adds one, and an empty collection counts one. -/
def height (leaf : Nat) : Json → Nat
  | .arr items => itemsHeight leaf items + 1
  | .obj members => membersHeight leaf members + 1
  | _ => leaf

def itemsHeight (leaf : Nat) : List Json → Nat
  | [] => 0
  | t :: ts => max (height leaf t) (itemsHeight leaf ts)

def membersHeight (leaf : Nat) : List (List UInt8 × Json) → Nat
  | [] => 0
  | (_, t) :: ms => max (height leaf t) (membersHeight leaf ms)

end

/-- The nesting of a tree as a validator of values counts it, with the scalars. -/
abbrev depth (t : Json) : Nat := t.height 1

/-- The nesting of a tree as a recursive reader counts it: collections only. It is the depth,
or one less where every deepest value is a scalar. -/
abbrev containers (t : Json) : Nat := t.height 0

section Height

variable {leaf d : Nat}

theorem itemsHeight_le {items : List Json} :
    itemsHeight leaf items ≤ d ↔ ∀ t ∈ items, t.height leaf ≤ d := by
  induction items with
  | nil => simp [itemsHeight]
  | cons t ts ih => simp [itemsHeight, ih]

theorem membersHeight_le {members : List (List UInt8 × Json)} :
    membersHeight leaf members ≤ d ↔ ∀ m ∈ members, m.2.height leaf ≤ d := by
  induction members with
  | nil => simp [membersHeight]
  | cons m ms ih => simp [membersHeight, ih]

theorem depth_le_itemsHeight {items : List Json} {t : Json} (h : t ∈ items) :
    t.depth ≤ itemsHeight 1 items :=
  itemsHeight_le.mp (le_refl _) t h

theorem depth_le_membersHeight {members : List (List UInt8 × Json)} {m : List UInt8 × Json}
    (h : m ∈ members) : m.2.depth ≤ membersHeight 1 members :=
  membersHeight_le.mp (le_refl _) m h

end Height

mutual

def nodes : Json → Nat
  | .arr items => itemsNodes items + 1
  | .obj members => membersNodes members + 1
  | _ => 1

def itemsNodes : List Json → Nat
  | [] => 0
  | t :: ts => nodes t + itemsNodes ts

def membersNodes : List (List UInt8 × Json) → Nat
  | [] => 0
  | (_, t) :: ms => nodes t + membersNodes ms

end

theorem nodes_pos (t : Json) : 0 < t.nodes := by
  cases t <;> simp [nodes]

theorem depth_pos (t : Json) : 0 < t.depth := by
  cases t <;> simp [height]

theorem length_le_itemsNodes (ts : List Json) : ts.length ≤ itemsNodes ts := by
  induction ts with
  | nil => exact le_refl _
  | cons t ts ih =>
    have := t.nodes_pos
    simp only [List.length_cons, itemsNodes]
    omega

theorem length_le_membersNodes (ms : List (List UInt8 × Json)) :
    ms.length ≤ membersNodes ms := by
  induction ms with
  | nil => exact le_refl _
  | cons m ms ih =>
    have := m.2.nodes_pos
    simp only [List.length_cons, membersNodes]
    omega

theorem nodes_le_itemsNodes {ts : List Json} {t : Json} (h : t ∈ ts) :
    t.nodes ≤ itemsNodes ts := by
  induction ts with
  | nil => exact absurd h List.not_mem_nil
  | cons u ts ih =>
    rw [itemsNodes]
    obtain rfl | h := List.mem_cons.mp h
    · omega
    · exact Nat.le_add_left_of_le (ih h)

theorem nodes_le_membersNodes {ms : List (List UInt8 × Json)} {m : List UInt8 × Json}
    (h : m ∈ ms) : m.2.nodes ≤ membersNodes ms := by
  induction ms with
  | nil => exact absurd h List.not_mem_nil
  | cons n ms ih =>
    rw [membersNodes]
    obtain rfl | h := List.mem_cons.mp h
    · omega
    · exact Nat.le_add_left_of_le (ih h)

/-! ## Sorted trees -/

/-- The order of the entries of a map: by key, byte by byte. -/
def KeyLE {α : Type} (m m' : List UInt8 × α) : Prop := m.1 ≤ m'.1

instance {α : Type} : DecidableRel (KeyLE (α := α)) :=
  fun m m' => inferInstanceAs (Decidable (m.1 ≤ m'.1))

def sortKeys {α : Type} (entries : List (List UInt8 × α)) : List (List UInt8 × α) :=
  entries.insertionSort KeyLE

theorem sortKeys_perm {α : Type} (entries : List (List UInt8 × α)) :
    (sortKeys entries).Perm entries :=
  List.perm_insertionSort _ _

mutual

/-- Every object's members sorted by key. -/
def normalize : Json → Json
  | .arr items => .arr (normalizeItems items)
  | .obj members => .obj (sortKeys (normalizeMembers members))
  | .null => .null
  | .bool b => .bool b
  | .int n => .int n
  | .float literal => .float literal
  | .str s => .str s

def normalizeItems : List Json → List Json
  | [] => []
  | t :: ts => normalize t :: normalizeItems ts

def normalizeMembers : List (List UInt8 × Json) → List (List UInt8 × Json)
  | [] => []
  | (k, t) :: ms => (k, normalize t) :: normalizeMembers ms

end

theorem normalizeItems_eq (items : List Json) : normalizeItems items = items.map normalize := by
  induction items with
  | nil => rfl
  | cons t ts ih => rw [normalizeItems, ih, List.map_cons]

theorem normalizeMembers_eq (members : List (List UInt8 × Json)) :
    normalizeMembers members = members.map fun m => (m.1, m.2.normalize) := by
  induction members with
  | nil => rfl
  | cons m ms ih => rw [normalizeMembers, ih, List.map_cons]

def sortedMembers (members : List (List UInt8 × Json)) : List (List UInt8 × Json) :=
  sortKeys (normalizeMembers members)

theorem normalize_obj (members : List (List UInt8 × Json)) :
    (obj members).normalize = obj (sortedMembers members) := rfl

theorem sorted_perm (members : List (List UInt8 × Json)) :
    (sortedMembers members).Perm (members.map fun m => (m.1, m.2.normalize)) := by
  rw [← normalizeMembers_eq]
  exact sortKeys_perm _

theorem sorted_keys_perm (members : List (List UInt8 × Json)) :
    ((sortedMembers members).map Prod.fst).Perm (members.map Prod.fst) := by
  have h := (sorted_perm members).map Prod.fst
  rwa [List.map_map] at h

theorem strict_normalize {okInt : Int → Bool} {okText : List UInt8 → Bool} {t : Json} :
    t.normalize.strict okInt okText = true ↔ t.strict okInt okText = true := by
  induction t with
  | null => rfl
  | bool b => rfl
  | int n => rfl
  | float l => rfl
  | str s => rfl
  | arr items ih =>
    rw [normalize, strict_arr, strict_arr, normalizeItems_eq, List.forall_mem_map]
    exact forall₂_congr ih
  | obj members ih =>
    rw [normalize_obj, strict_obj, strict_obj, (sorted_keys_perm members).nodup_iff]
    refine and_congr_right fun _ => ?_
    simp only [(sorted_perm members).mem_iff, List.forall_mem_map]
    exact forall₂_congr fun m hm => and_congr_right fun _ => ih m hm

theorem height_normalize (leaf : Nat) (t : Json) :
    t.normalize.height leaf = t.height leaf := by
  induction t with
  | null => rfl
  | bool b => rfl
  | int n => rfl
  | float l => rfl
  | str s => rfl
  | arr items ih =>
    refine congrArg (· + 1) (eq_of_forall_ge_iff fun d => ?_)
    rw [normalizeItems_eq, itemsHeight_le, itemsHeight_le, List.forall_mem_map]
    exact forall₂_congr fun t ht => by rw [ih t ht]
  | obj members ih =>
    rw [normalize_obj]
    refine congrArg (· + 1) (eq_of_forall_ge_iff fun d => ?_)
    simp only [membersHeight_le, (sorted_perm members).mem_iff, List.forall_mem_map]
    exact forall₂_congr fun m hm => by rw [ih m hm]

/-! ## The size of the text -/

theorem decimal_ne_nil (n : Nat) : decimal n ≠ [] := by
  simp [decimal, Nat.toDigits_ne_nil]

theorem intText_ne_nil (n : Int) : intText n ≠ [] := by
  cases n with
  | ofNat n => exact decimal_ne_nil n
  | negSucc n => exact List.cons_ne_nil _ _

section Size

variable {okInt : Int → Bool} {okText : List UInt8 → Bool} {del : Bool}

theorem itemsNodes_le_length {ts : List Json} (h : ∀ t ∈ ts, t.nodes ≤ (t.text del).length)
    (first : Bool) : itemsNodes ts ≤ (itemsText del first ts).length := by
  induction ts generalizing first with
  | nil => exact Nat.zero_le _
  | cons t ts ih =>
    obtain ⟨ht, hts⟩ := List.forall_mem_cons.mp h
    have htail := ih hts false
    simp only [itemsNodes, itemsText, List.length_append]
    omega

theorem membersNodes_le_length {ms : List (List UInt8 × Json)}
    (h : ∀ m ∈ ms, m.2.nodes ≤ (m.2.text del).length) (first : Bool) :
    membersNodes ms ≤ (membersText del first ms).length := by
  induction ms generalizing first with
  | nil => exact Nat.zero_le _
  | cons m ms ih =>
    obtain ⟨hm, hms⟩ := List.forall_mem_cons.mp h
    have htail := ih hms false
    simp only [membersNodes, membersText, List.length_append, List.length_cons]
    omega

theorem nodes_le_length (del : Bool) {t : Json} (h : t.strict okInt okText = true) :
    t.nodes ≤ (t.text del).length := by
  induction t with
  | null => simp [nodes, text]
  | bool b => cases b <;> simp [nodes, text]
  | int n => exact List.length_pos_of_ne_nil (intText_ne_nil n)
  | float l => simp [strict] at h
  | str s => simp [nodes, text, quote]
  | arr items ih =>
    have hitems := itemsNodes_le_length (fun t ht => ih t ht (strict_arr.mp h t ht)) true
    simp only [nodes, text, List.length_cons, List.length_append]
    omega
  | obj members ih =>
    have hmembers :=
      membersNodes_le_length (fun m hm => ih m hm ((strict_obj.mp h).2 m hm).2) true
    simp only [nodes, text, List.length_cons, List.length_append]
    omega

end Size

/-! ## Reading the text back -/

def hexValue (b : UInt8) : UInt8 := if b < 58 then b - 48 else b - 87

/-- Reads a string up to its closing quote. Of the escapes by number it reads the ones of
a single byte. -/
def readString : List UInt8 → Option (List UInt8 × List UInt8)
  | [] => none
  | b :: rest =>
    if b = 34 then some ([], rest)
    else if b = 92 then
      match rest with
      | 34 :: rest => (readString rest).map fun r => (34 :: r.1, r.2)
      | 92 :: rest => (readString rest).map fun r => (92 :: r.1, r.2)
      | 98 :: rest => (readString rest).map fun r => (8 :: r.1, r.2)
      | 116 :: rest => (readString rest).map fun r => (9 :: r.1, r.2)
      | 110 :: rest => (readString rest).map fun r => (10 :: r.1, r.2)
      | 102 :: rest => (readString rest).map fun r => (12 :: r.1, r.2)
      | 114 :: rest => (readString rest).map fun r => (13 :: r.1, r.2)
      | 117 :: 48 :: 48 :: h :: l :: rest =>
        (readString rest).map fun r => ((16 * hexValue h + hexValue l) :: r.1, r.2)
      | _ => none
    else (readString rest).map fun r => (b :: r.1, r.2)

def isDigit (b : UInt8) : Bool := 48 ≤ b && b ≤ 57

def readNat (bs : List UInt8) : Option (Nat × List UInt8) :=
  if (bs.takeWhile isDigit).isEmpty then none
  else
    some (Nat.ofDigitChars 10 ((bs.takeWhile isDigit).map fun b => Char.ofNat b.toNat) 0,
      bs.dropWhile isDigit)

mutual

def readValue : Nat → List UInt8 → Option (Json × List UInt8)
  | 0, _ => none
  | _ + 1, [] => none
  | fuel + 1, b :: rest =>
    if b = 34 then (readString rest).map fun r => (.str r.1, r.2)
    else if b = 91 then (readItems fuel true rest).map fun r => (.arr r.1, r.2)
    else if b = 123 then (readMembers fuel true rest).map fun r => (.obj r.1, r.2)
    else if b = 45 then (readNat rest).map fun r => (.int (-r.1), r.2)
    else if isDigit b then (readNat (b :: rest)).map fun r => (.int r.1, r.2)
    else
      match b :: rest with
      | 110 :: 117 :: 108 :: 108 :: rest => some (.null, rest)
      | 116 :: 114 :: 117 :: 101 :: rest => some (.bool true, rest)
      | 102 :: 97 :: 108 :: 115 :: 101 :: rest => some (.bool false, rest)
      | _ => none

/-- Reads items up to the closing bracket; before every item but the first stands a comma. -/
def readItems : Nat → Bool → List UInt8 → Option (List Json × List UInt8)
  | 0, _, _ => none
  | _ + 1, _, [] => none
  | fuel + 1, first, b :: rest =>
    if b = 93 then some ([], rest)
    else if first = true ∨ b = 44 then
      (readValue fuel (if first then b :: rest else rest)).bind fun r =>
        (readItems fuel false r.2).map fun q => (r.1 :: q.1, q.2)
    else none

def readMembers : Nat → Bool → List UInt8 → Option (List (List UInt8 × Json) × List UInt8)
  | 0, _, _ => none
  | _ + 1, _, [] => none
  | fuel + 1, first, b :: rest =>
    if b = 125 then some ([], rest)
    else if first = true ∨ b = 44 then
      match if first then b :: rest else rest with
      | 34 :: rest =>
        (readString rest).bind fun k =>
          match k.2 with
          | 58 :: rest =>
            (readValue fuel rest).bind fun r =>
              (readMembers fuel false r.2).map fun q => ((k.1, r.1) :: q.1, q.2)
          | _ => none
      | _ => none
    else none

end

def read (bs : List UInt8) : Option Json :=
  match readValue bs.length bs with
  | some (t, []) => some t
  | _ => none

/-- A fact about the bytes below a bound is checked number by number. -/
theorem forall_byte_lt {k : Nat} {P : UInt8 → Prop} (h : ∀ n : Fin k, P (UInt8.ofNat n))
    {b : UInt8} (hb : b.toNat < k) : P b := by
  have hP := h ⟨b.toNat, hb⟩
  rwa [UInt8.ofNat_toNat] at hP

theorem hexValue_hexDigit {b : UInt8} (h : b < 128) :
    16 * hexValue (hexDigit (b / 16)) + hexValue (hexDigit (b % 16)) = b :=
  @forall_byte_lt 128
    (fun b => 16 * hexValue (hexDigit (b / 16)) + hexValue (hexDigit (b % 16)) = b)
    (by decide +kernel) b (UInt8.lt_iff_toNat_lt.mp h)

theorem readString_escape (del : Bool) (b : UInt8) (rest : List UInt8) :
    readString (escape del b ++ rest) = (readString rest).map fun r => (b :: r.1, r.2) := by
  unfold escape
  split_ifs with h1 h2 h3 h4 h5 h6 h7 h8
  -- the escapes by letter
  iterate 7 subst b; rfl
  · have hb : b < 128 := by
      obtain h | ⟨-, h⟩ := h8
      · exact UInt8.lt_trans h (by decide)
      · rw [h]; decide
    have hread : readString ([92, 117, 48, 48, hexDigit (b / 16), hexDigit (b % 16)] ++ rest) =
        (readString rest).map fun r =>
          ((16 * hexValue (hexDigit (b / 16)) + hexValue (hexDigit (b % 16))) :: r.1, r.2) := rfl
    rw [hread, hexValue_hexDigit hb]
  · rw [List.singleton_append, readString.eq_def]
    simp only [h1, h2, if_false]

theorem readString_quoted (del : Bool) (s rest : List UInt8) :
    readString (s.flatMap (escape del) ++ 34 :: rest) = some (s, rest) := by
  induction s with
  | nil =>
    rw [List.flatMap_nil, List.nil_append, readString.eq_def]
    exact if_pos rfl
  | cons b s ih =>
    rw [List.flatMap_cons, List.append_assoc, readString_escape, ih]
    rfl

/-- The text after a number does not go on with a digit. -/
def NoDigit (rest : List UInt8) : Prop := ∀ b ∈ rest.head?, isDigit b = false

theorem isDigit_of_mem_decimal {n : Nat} {b : UInt8} (h : b ∈ decimal n) : isDigit b = true := by
  obtain ⟨c, hc, rfl⟩ := List.mem_map.mp h
  obtain ⟨heq, hlow, hhigh⟩ :=
    toUInt8_toNat_of_isDigit (Nat.isDigit_of_mem_toDigits (by decide) (by decide) hc)
  simp only [isDigit, Bool.and_eq_true, decide_eq_true_eq, UInt8.le_iff_toNat_le, heq]
  exact ⟨hlow, hhigh⟩

theorem readNat_decimal (n : Nat) {rest : List UInt8} (h : NoDigit rest) :
    readNat (decimal n ++ rest) = some (n, rest) := by
  have hdigits : ∀ b ∈ decimal n, isDigit b = true := fun b => isDigit_of_mem_decimal
  have htake : (decimal n ++ rest).takeWhile isDigit = decimal n := by
    rw [List.takeWhile_append_of_pos hdigits]
    cases rest with
    | nil => simp
    | cons b rest => simp [h b rfl]
  have hdrop : (decimal n ++ rest).dropWhile isDigit = rest := by
    rw [List.dropWhile_append_of_pos hdigits]
    cases rest with
    | nil => rfl
    | cons b rest => simp [h b rfl]
  rw [readNat, htake, hdrop, if_neg (by simp [decimal_ne_nil]), map_ofNat_decimal,
    Nat.ofDigitChars_ten_toDigits]

/-- What a reader of values has to do with a tree: give it back, whatever stands behind it. -/
def Readable (del : Bool) (t : Json) : Prop :=
  ∀ (fuel : Nat) (rest : List UInt8), (t.text del).length ≤ fuel → NoDigit rest →
    readValue fuel (t.text del ++ rest) = some (t, rest)

theorem readable_int (del : Bool) (n : Int) : Readable del (.int n) := by
  intro fuel rest hfuel hrest
  cases n with
  | ofNat n =>
    obtain ⟨b, bs, hb⟩ := List.exists_cons_of_ne_nil (decimal_ne_nil n)
    have hdigit : isDigit b = true := isDigit_of_mem_decimal (hb ▸ List.mem_cons_self)
    have hread := readNat_decimal n hrest
    simp only [text, intText, hb, List.length_cons] at hfuel
    obtain ⟨fuel, rfl⟩ := Nat.exists_eq_add_of_le' (Nat.le_of_add_left_le hfuel)
    have hne : b ≠ 34 ∧ b ≠ 91 ∧ b ≠ 123 ∧ b ≠ 45 := by
      refine ⟨?_, ?_, ?_, ?_⟩ <;> · rintro rfl; revert hdigit; decide
    simp only [text, intText, hb, List.cons_append] at hread ⊢
    simp only [readValue, hne, hdigit, if_false, if_true, hread]
    rfl
  | negSucc n =>
    simp only [text, intText, List.length_cons] at hfuel
    obtain ⟨fuel, rfl⟩ := Nat.exists_eq_add_of_le' (Nat.le_of_add_left_le hfuel)
    simp only [text, intText, List.cons_append, readValue, readNat_decimal (n + 1) hrest]
    rfl

/-- A text that can be read is not empty and does not start with a closing bracket. -/
theorem Readable.head {del : Bool} {t : Json} (h : Readable del t) :
    ∃ b bs, t.text del = b :: bs ∧ b ≠ 93 := by
  have hread := h ((t.text del).length + 1) [] (Nat.le_succ _) (fun b hb => nomatch hb)
  rw [List.append_nil] at hread
  match hbytes : t.text del with
  | [] =>
    rw [hbytes] at hread
    exact nomatch hread
  | b :: bs =>
    refine ⟨b, bs, rfl, ?_⟩
    rintro rfl
    rw [hbytes] at hread
    exact nomatch hread

theorem noDigit_itemsText (del : Bool) (ts : List Json) (rest : List UInt8) :
    NoDigit (itemsText del false ts ++ 93 :: rest) := by
  cases ts <;> simp [NoDigit, itemsText] <;> decide

theorem noDigit_membersText (del : Bool) (ms : List (List UInt8 × Json)) (rest : List UInt8) :
    NoDigit (membersText del false ms ++ 125 :: rest) := by
  cases ms <;> simp [NoDigit, membersText] <;> decide

theorem readItems_itemsText {del : Bool} {ts : List Json} (h : ∀ t ∈ ts, Readable del t)
    (first : Bool) {fuel : Nat} (rest : List UInt8)
    (hfuel : (itemsText del first ts).length < fuel) :
    readItems fuel first (itemsText del first ts ++ 93 :: rest) = some (ts, rest) := by
  induction ts generalizing first fuel with
  | nil =>
    obtain ⟨fuel, rfl⟩ := Nat.exists_eq_succ_of_ne_zero (Nat.ne_zero_of_lt hfuel)
    simp [itemsText, readItems]
  | cons t ts ih =>
    obtain ⟨ht, hts⟩ := List.forall_mem_cons.mp h
    obtain ⟨b, bs, hb, hne⟩ := ht.head
    obtain ⟨fuel, rfl⟩ := Nat.exists_eq_succ_of_ne_zero (Nat.ne_zero_of_lt hfuel)
    simp only [itemsText, List.length_append] at hfuel
    have hpos : 0 < (t.text del).length := by simp [hb]
    have hvalue := ht fuel _ (by omega) (noDigit_itemsText del ts rest)
    have hrest := @ih hts false fuel (by omega)
    cases first with
    | true =>
      simp only [itemsText, if_true, List.nil_append, List.append_assoc]
      rw [hb, List.cons_append] at hvalue ⊢
      simp [readItems, hne, hvalue, hrest]
    | false => simp [itemsText, readItems, hvalue, hrest]

theorem readMembers_membersText {del : Bool} {ms : List (List UInt8 × Json)}
    (h : ∀ m ∈ ms, Readable del m.2) (first : Bool) {fuel : Nat} (rest : List UInt8)
    (hfuel : (membersText del first ms).length < fuel) :
    readMembers fuel first (membersText del first ms ++ 125 :: rest) = some (ms, rest) := by
  induction ms generalizing first fuel with
  | nil =>
    obtain ⟨fuel, rfl⟩ := Nat.exists_eq_succ_of_ne_zero (Nat.ne_zero_of_lt hfuel)
    simp [membersText, readMembers]
  | cons m ms ih =>
    obtain ⟨hm, hms⟩ := List.forall_mem_cons.mp h
    obtain ⟨fuel, rfl⟩ := Nat.exists_eq_succ_of_ne_zero (Nat.ne_zero_of_lt hfuel)
    simp only [membersText, List.length_append, List.length_cons] at hfuel
    have hkey := readString_quoted del m.1
    have hvalue := hm fuel _ (by omega) (noDigit_membersText del ms rest)
    have hrest := @ih hms false fuel (by omega)
    cases first <;> simp [membersText, quote, readMembers, hkey, hvalue, hrest]

theorem readable {okInt : Int → Bool} {okText : List UInt8 → Bool} (del : Bool) {t : Json}
    (h : t.strict okInt okText = true) : Readable del t := by
  induction t with
  | int n => exact readable_int del n
  | float l => simp [strict] at h
  | null =>
    intro fuel rest hfuel _
    obtain ⟨fuel, rfl⟩ := Nat.exists_eq_add_of_le' (show 1 ≤ fuel by simp [text] at hfuel; omega)
    rfl
  | bool b =>
    intro fuel rest hfuel _
    cases b <;>
    · obtain ⟨fuel, rfl⟩ := Nat.exists_eq_add_of_le' (show 1 ≤ fuel by simp [text] at hfuel; omega)
      rfl
  | str s =>
    intro fuel rest hfuel _
    obtain ⟨fuel, rfl⟩ :=
      Nat.exists_eq_add_of_le' (show 1 ≤ fuel by simp [text, quote] at hfuel; omega)
    simp [text, quote, readValue, readString_quoted del s]
  | arr items ih =>
    intro fuel rest hfuel _
    simp only [text, List.length_cons, List.length_append] at hfuel
    obtain ⟨fuel, rfl⟩ := Nat.exists_eq_add_of_le' (show 1 ≤ fuel by omega)
    have hitems := @readItems_itemsText del items (fun t ht => ih t ht (strict_arr.mp h t ht)) true
      fuel rest (by omega)
    simp [text, readValue, hitems]
  | obj members ih =>
    intro fuel rest hfuel _
    simp only [text, List.length_cons, List.length_append] at hfuel
    obtain ⟨fuel, rfl⟩ := Nat.exists_eq_add_of_le' (show 1 ≤ fuel by omega)
    have hmembers := @readMembers_membersText del members
      (fun m hm => ih m hm ((strict_obj.mp h).2 m hm).2) true fuel rest (by omega)
    simp [text, readValue, hmembers]

/-- Every tree without fractions and repeated keys is read back from its text. -/
theorem read_text {okInt : Int → Bool} {okText : List UInt8 → Bool} (del : Bool) {t : Json}
    (h : t.strict okInt okText = true) : read (t.text del) = some t := by
  have hread := readable del h _ [] (le_refl _) (fun b hb => nomatch hb)
  rw [List.append_nil] at hread
  rw [read, hread]

end Json
end OcamlTemporal.Lib
