import OcamlTemporal.Bridge.Control

/-!
# OcamlTemporal.Sound.Json

The strict JSON foundations of the two languages on canonical documents. The Rust scan
measures a string by the bytes it decodes to, as both tree checks do. The OCaml scan skips
a backslash and the byte behind it and counts every other byte of the text, so an escape by
letter counts nothing and an escape by number counts its four digits (`scanned`). The Rust
scan accepts every admissible document; the OCaml scan accepts it exactly if no text of it is
`scanned` past the limit.

serde_json has a guard of its own, which lets 127 nested collections pass. The limit on the
depth of a document is 128 in both languages and counts scalars too, so an admissible tree
can hold one collection more, and only the OCaml side reads that tree back. The two
foundations accept the same admissible document exactly if it meets both conditions.
-/

namespace OcamlTemporal

open Lib (Json)
open Lib.Json (escape quote)
open Protocol (Bytes text validUtf8 JsonParser)
open Protocol.Control (inInt64)

/-! ## What a scan counts

Both languages scan the bytes of a document before they parse it, to refuse strings that are too
long and nesting that is too deep. The lemmas follow the scan through the text that the writer
produces, from the escape of a byte up to a whole document, and say at which counter it is then. -/

theorem escape_cases (del : Bool) (b : UInt8) :
    (escape del b = [b] ∧ b ≠ 34 ∧ b ≠ 92) ∨ (∃ e, e ≠ 117 ∧ escape del b = [92, e]) ∨
      ∃ h l, h < 8 ∧ l < 16 ∧
        escape del b = [92, 117, 48, 48, Json.hexDigit h, Json.hexDigit l] := by
  unfold escape
  split_ifs with h1 h2 h3 h4 h5 h6 h7 h8
  iterate 7 exact Or.inr (Or.inl ⟨_, by decide, rfl⟩)
  · have hb : b < 128 := by
      obtain h | ⟨-, h⟩ := h8
      · exact UInt8.lt_trans h (by decide)
      · rw [h]; decide
    refine Or.inr (Or.inr ⟨b / 16, b % 16, ?_, ?_, rfl⟩)
    · rw [UInt8.lt_iff_toNat_lt] at hb ⊢
      simp only [UInt8.toNat_div]
      exact Nat.div_lt_of_lt_mul hb
    · rw [UInt8.lt_iff_toNat_lt]
      simp only [UInt8.toNat_mod]
      exact Nat.mod_lt _ (by decide)
  · exact Or.inl ⟨rfl, h1, h2⟩

namespace Protocol.Control

/-- How many bytes of an escape the OCaml scan counts: a backslash and the byte behind it
are skipped. -/
def counted (del : Bool) (b : UInt8) : Nat :=
  if (escape del b).length = 1 then 1 else (escape del b).length - 2

/-- How many bytes of a text the OCaml scan counts in the document. -/
def scanned (del : Bool) (s : Bytes) : Nat := (s.map (counted del)).sum

/-- No text of the tree, key or string, is scanned past the limit by the OCaml scan. For texts
without escapes this is the bound on their length. -/
def Fits (del : Bool) (stringLimit : Nat) (t : Json) : Prop :=
  t.strict (fun _ => true) (fun s => scanned del s ≤ stringLimit) = true

instance (del : Bool) (stringLimit : Nat) (t : Json) : Decidable (Fits del stringLimit t) :=
  inferInstanceAs (Decidable (_ = true))

/-- The limits of a document in both languages, of a tree: integers of 64 bits, unique
keys, bounded texts and bounded nesting. -/
structure Admissible (stringLimit : Nat) (t : Json) : Prop where
  strict : t.strict inInt64 (fun s => validUtf8 s && s.length ≤ stringLimit) = true
  depth : t.depth ≤ maxDepth

def stringError : Error := invalid "JSON string byte limit exceeded"

theorem hexDigit_plain {n : UInt8} (h : n < 16) :
    Json.hexDigit n ≠ 34 ∧ Json.hexDigit n ≠ 92 :=
  @Json.forall_byte_lt 16 (fun n => Json.hexDigit n ≠ 34 ∧ Json.hexDigit n ≠ 92) (by decide) n
    (UInt8.lt_iff_toNat_lt.mp h)

section Scan

variable {del : Bool} {limit d n : Nat}

theorem inside_plain {b : UInt8} {rest : Bytes} (h34 : b ≠ 34) (h92 : b ≠ 92) :
    inside limit d n (b :: rest) =
      if n + 1 ≤ limit then inside limit d (n + 1) rest else .error stringError := by
  rw [inside.eq_def]
  simp only [h34, h92, if_false, gt_iff_lt, ← Nat.not_le, ite_not]
  rfl

/-- One escaped byte: the counter grows by what the scan counts of the escape, and the scan fails as
soon as that is past the limit. -/
theorem inside_escape (b : UInt8) (rest : Bytes) (hn : n ≤ limit) :
    inside limit d n (escape del b ++ rest) =
      if n + counted del b ≤ limit then inside limit d (n + counted del b) rest
      else .error stringError := by
  obtain ⟨he, h34, h92⟩ | ⟨e, -, he⟩ | ⟨h, l, hh, hl, he⟩ := escape_cases del b
  · simp [counted, he, inside_plain h34 h92]
  · simp [counted, he, hn, inside]
  · have hh := hexDigit_plain (UInt8.lt_trans hh (by decide))
    have hl := hexDigit_plain hl
    have hskip : inside limit d n (escape del b ++ rest) =
        inside limit d n (48 :: 48 :: Json.hexDigit h :: Json.hexDigit l :: rest) := by
      rw [he]
      rfl
    rw [hskip, inside_plain (by decide) (by decide), inside_plain (by decide) (by decide),
      inside_plain hh.1 hh.2, inside_plain hl.1 hl.2]
    simp only [counted, he, List.length_cons, List.length_nil]
    split_ifs <;> first | rfl | omega

theorem inside_quoted (s rest : Bytes) (hn : n ≤ limit) :
    inside limit d n (s.flatMap (escape del) ++ 34 :: rest) =
      if n + scanned del s ≤ limit then outside limit d rest else .error stringError := by
  induction s generalizing n with
  | nil =>
    rw [List.flatMap_nil, List.nil_append, inside.eq_def]
    simp [scanned, hn]
  | cons b s ih =>
    rw [List.flatMap_cons, List.append_assoc, inside_escape b _ hn]
    have hsum : scanned del (b :: s) = counted del b + scanned del s := by simp [scanned]
    split_ifs with hb hs hs
    · rw [ih hb, if_pos (by omega)]
    · rw [ih hb, if_neg (by omega)]
    · omega
    · rfl

theorem outside_quote (s rest : Bytes) :
    outside limit d (quote del s ++ rest) =
      if scanned del s ≤ limit then outside limit d rest else .error stringError := by
  have h := @inside_quoted del limit d 0 s rest (Nat.zero_le limit)
  rw [Nat.zero_add] at h
  rw [← h]
  simp [quote, outside]

/-- A byte that the scan passes over outside of strings. -/
def plain (b : UInt8) : Bool := b ≠ 34 && b ≠ 123 && b ≠ 91 && b ≠ 125 && b ≠ 93

theorem outside_plain {bs : Bytes} (h : ∀ b ∈ bs, plain b = true) (rest : Bytes) :
    outside limit d (bs ++ rest) = outside limit d rest := by
  induction bs with
  | nil => rfl
  | cons b bs ih =>
    obtain ⟨hb, hbs⟩ := List.forall_mem_cons.mp h
    simp only [plain, Bool.and_eq_true, decide_eq_true_eq] at hb
    rw [List.cons_append, outside.eq_def]
    simp only [hb, or_self, if_false]
    exact ih hbs

theorem plain_of_mem_intText {n : Int} {b : UInt8} (h : b ∈ Json.intText n) : plain b = true := by
  have hdigit : ∀ m, b ∈ Lib.decimal m → plain b = true := by
    intro m hb
    have hb := Json.isDigit_of_mem_decimal hb
    simp only [Json.isDigit, Bool.and_eq_true, decide_eq_true_eq, UInt8.le_iff_toNat_le] at hb
    simp only [plain, Bool.and_eq_true, decide_eq_true_eq]
    refine ⟨⟨⟨⟨?_, ?_⟩, ?_⟩, ?_⟩, ?_⟩ <;>
    · rintro rfl
      revert hb
      decide
  cases n with
  | ofNat n => exact hdigit n h
  | negSucc n =>
    obtain rfl | h := List.mem_cons.mp h
    · rfl
    · exact hdigit _ h

/-- Behind the items the scan is where it was before them, if it got through; the depth that
brackets add is taken back by their counterparts. -/
theorem outside_items {ts : List Json} (h : ∀ t ∈ ts, ∀ rest,
      outside limit d (t.text del ++ rest) =
        if Fits del limit t then outside limit d rest else .error stringError)
    (first : Bool) (rest : Bytes) :
    outside limit d (Json.itemsText del first ts ++ rest) =
      if ∀ t ∈ ts, Fits del limit t then outside limit d rest else .error stringError := by
  induction ts generalizing first with
  | nil => simp [Json.itemsText]
  | cons t ts ih =>
    obtain ⟨ht, hts⟩ := List.forall_mem_cons.mp h
    have hcomma : ∀ b ∈ (if first then [] else [44] : Bytes), plain b = true := by
      cases first <;> simp [plain]
    rw [Json.itemsText, List.append_assoc, List.append_assoc, outside_plain hcomma, ht, ih hts]
    simp only [List.forall_mem_cons, ite_and]

theorem outside_members {ms : List (Bytes × Json)} (h : ∀ m ∈ ms, ∀ rest,
      outside limit d (m.2.text del ++ rest) =
        if Fits del limit m.2 then outside limit d rest else .error stringError)
    (first : Bool) (rest : Bytes) :
    outside limit d (Json.membersText del first ms ++ rest) =
      if ∀ m ∈ ms, scanned del m.1 ≤ limit ∧ Fits del limit m.2 then outside limit d rest
      else .error stringError := by
  induction ms generalizing first with
  | nil => simp [Json.membersText]
  | cons m ms ih =>
    obtain ⟨hm, hms⟩ := List.forall_mem_cons.mp h
    have hcomma : ∀ b ∈ (if first then [] else [44] : Bytes), plain b = true := by
      cases first <;> simp [plain]
    have hcolon : ∀ b ∈ ([58] : Bytes), plain b = true := by simp [plain]
    rw [Json.membersText, List.append_assoc, List.append_assoc, outside_plain hcomma,
      outside_quote, ← List.singleton_append, List.append_assoc, outside_plain hcolon,
      List.append_assoc, hm, ih hms]
    simp only [List.forall_mem_cons, ite_and]

/-- The OCaml scan of a tree's text, by induction on the tree. The depth needs no case of its own,
as an admissible tree stays within its bound everywhere. -/
theorem outside_text {okInt : Int → Bool} {okText : Bytes → Bool} {t : Json}
    (hstrict : t.strict okInt okText = true) (hdepth : d + t.depth ≤ maxDepth) (rest : Bytes) :
    outside limit d (t.text del ++ rest) =
      if Fits del limit t then outside limit d rest else .error stringError := by
  induction t generalizing d rest with
  | null => simp [Fits, Json.strict, Json.text, outside]
  | bool b => cases b <;> simp [Fits, Json.strict, Json.text, outside]
  | int n =>
    rw [Json.text, outside_plain fun b => plain_of_mem_intText]
    simp [Fits, Json.strict]
  | float l => simp [Json.strict] at hstrict
  | str s =>
    rw [Json.text, outside_quote]
    simp [Fits, Json.strict]
  | arr items ih =>
    rw [Json.depth, Json.height] at hdepth
    have hitems : ∀ t ∈ items, d + 1 + t.depth ≤ maxDepth := by
      intro t ht
      have := Json.depth_le_itemsHeight ht
      omega
    have hopen : ∀ bs : Bytes, outside limit d (91 :: bs) = outside limit (d + 1) bs := by
      intro bs
      simp [outside, show ¬ maxDepth < d + 1 by omega]
    have hclose : outside limit (d + 1) (93 :: rest) = outside limit d rest := by simp [outside]
    rw [Json.text, List.cons_append, List.append_assoc, hopen,
      outside_items fun t ht rest =>
        ih t ht (Json.strict_arr.mp hstrict t ht) (hitems t ht) rest]
    simp only [Fits, Json.strict_arr, List.singleton_append, hclose]
  | obj members ih =>
    rw [Json.depth, Json.height] at hdepth
    have hmembers : ∀ m ∈ members, d + 1 + m.2.depth ≤ maxDepth := by
      intro m hm
      have := Json.depth_le_membersHeight hm
      omega
    have hopen : ∀ bs : Bytes, outside limit d (123 :: bs) = outside limit (d + 1) bs := by
      intro bs
      simp [outside, show ¬ maxDepth < d + 1 by omega]
    have hclose : outside limit (d + 1) (125 :: rest) = outside limit d rest := by simp [outside]
    obtain ⟨hnodup, hstrict⟩ := Json.strict_obj.mp hstrict
    rw [Json.text, List.cons_append, List.append_assoc, hopen,
      outside_members fun m hm rest => ih m hm (hstrict m hm).2 (hmembers m hm) rest]
    simp only [Fits, Json.strict_obj, hnodup, true_and, decide_eq_true_eq, List.singleton_append,
      hclose]

theorem preflight_text {okInt : Int → Bool} {okText : Bytes → Bool} {t : Json}
    (hstrict : t.strict okInt okText = true) (hdepth : t.depth ≤ maxDepth)
    (hlength : (t.text del).length ≤ maxDocumentBytes) :
    preflight limit (t.text del) = if Fits del limit t then .ok () else .error stringError := by
  have h := @outside_text del limit 0 okInt okText t hstrict (by omega) []
  rw [List.append_nil] at h
  rw [preflight, if_neg (by omega), h]
  rfl

end Scan

/-! ## The check of the tree

What has been parsed is checked once more, for its depth, its number of values, its keys and the
lengths of its texts. The count of values is threaded through the loops, so the statement is about
any count to start from. -/

section Tree

variable {limit depth nodes : Nat}

/-- The check of a tree goes through from any count that leaves room for it, and adds to the count
the number of values in the tree. -/
def Validates (limit : Nat) (t : Json) : Prop :=
  ∀ (depth nodes : Nat) (path : Bytes), depth + t.depth ≤ maxDepth + 1 →
    nodes + t.nodes ≤ maxNodes → validateLoop limit depth path nodes t = .ok (nodes + t.nodes)

theorem validateItems_ok {ts : List Json} (h : ∀ t ∈ ts, Validates limit t)
    (hdepth : ∀ t ∈ ts, depth + t.depth ≤ maxDepth + 1)
    (hnodes : nodes + Json.itemsNodes ts ≤ maxNodes) (path : Bytes) (index : Nat) :
    validateItems limit depth path nodes index ts = .ok (nodes + Json.itemsNodes ts) := by
  induction ts generalizing nodes index with
  | nil => simp [validateItems, Json.itemsNodes]
  | cons t ts ih =>
    obtain ⟨ht, hts⟩ := List.forall_mem_cons.mp h
    obtain ⟨hdt, hdts⟩ := List.forall_mem_cons.mp hdepth
    simp only [Json.itemsNodes, ← Nat.add_assoc] at hnodes ⊢
    simp only [validateItems, ht depth nodes _ hdt (by omega), bind, Except.bind]
    exact ih hts hdts hnodes _

theorem validateMembers_ok {ms : List (Bytes × Json)} {seen : List Bytes}
    (h : ∀ m ∈ ms, (validUtf8 m.1 && m.1.length ≤ limit) = true ∧ Validates limit m.2)
    (hkeys : (seen.reverse ++ ms.map Prod.fst).Nodup)
    (hdepth : ∀ m ∈ ms, depth + m.2.depth ≤ maxDepth + 1)
    (hnodes : nodes + Json.membersNodes ms ≤ maxNodes) (path : Bytes) :
    validateMembers limit depth path nodes seen ms = .ok (nodes + Json.membersNodes ms) := by
  induction ms generalizing nodes seen with
  | nil => simp [validateMembers, Json.membersNodes]
  | cons m ms ih =>
    obtain ⟨⟨hkey, hm⟩, hms⟩ := List.forall_mem_cons.mp h
    obtain ⟨hdm, hdms⟩ := List.forall_mem_cons.mp hdepth
    simp only [Bool.and_eq_true, decide_eq_true_eq] at hkey
    have hnew : m.1 ∉ seen := by
      have := (List.nodup_append.mp hkeys).2.2
      intro hseen
      exact this m.1 (List.mem_reverse.mpr hseen) m.1 List.mem_cons_self rfl
    simp only [Json.membersNodes, ← Nat.add_assoc] at hnodes ⊢
    have hvalue := fun path => hm depth nodes path hdm (by omega)
    have hrest := @ih (nodes + m.2.nodes) (m.1 :: seen) hms (by simpa using hkeys) hdms hnodes
    simpa [validateMembers, hnew, hkey.1, Nat.not_lt.mpr hkey.2, hvalue, bind, Except.bind, pure,
      Except.pure] using hrest

/-- The two guards of the loop let a tree through that leaves room. -/
theorem guards_pass {t : Json} (hdepth : depth + t.depth ≤ maxDepth + 1)
    (hnodes : nodes + t.nodes ≤ maxNodes) : ¬ depth > maxDepth ∧ ¬ nodes ≥ maxNodes := by
  have := t.nodes_pos
  have := t.depth_pos
  omega

theorem validates {t : Json}
    (h : t.strict inInt64 (fun s => validUtf8 s && s.length ≤ limit) = true) :
    Validates limit t := by
  induction t with
  | null =>
    intro depth nodes path hdepth hnodes
    obtain ⟨hd, hn⟩ := guards_pass hdepth hnodes
    rw [validateLoop.eq_def, if_neg hd, if_neg hn]
    rfl
  | bool b =>
    intro depth nodes path hdepth hnodes
    obtain ⟨hd, hn⟩ := guards_pass hdepth hnodes
    rw [validateLoop.eq_def, if_neg hd, if_neg hn]
    rfl
  | int n =>
    intro depth nodes path hdepth hnodes
    obtain ⟨hd, hn⟩ := guards_pass hdepth hnodes
    rw [validateLoop.eq_def, if_neg hd, if_neg hn]
    exact if_pos h
  | float l => simp [Json.strict] at h
  | str s =>
    intro depth nodes path hdepth hnodes
    obtain ⟨hd, hn⟩ := guards_pass hdepth hnodes
    simp only [Json.strict, Bool.and_eq_true, decide_eq_true_eq] at h
    rw [validateLoop.eq_def, if_neg hd, if_neg hn]
    exact (if_neg (Nat.not_lt.mpr h.2)).trans (if_neg (by simp [h.1]))
  | arr items ih =>
    intro depth nodes path hdepth hnodes
    obtain ⟨hd, hn⟩ := guards_pass hdepth hnodes
    simp only [Json.depth, Json.height, Json.nodes] at hdepth hnodes
    have hlength := Json.length_le_itemsNodes items
    have hmax : maxCollectionItems = maxNodes := rfl
    have hitems := @validateItems_ok limit (depth + 1) (nodes + 1) items
      (fun t ht => ih t ht (Json.strict_arr.mp h t ht))
      (fun t ht => by have := Json.depth_le_itemsHeight ht; omega) (by omega) path 0
    rw [validateLoop, if_neg hd, if_neg hn, if_neg (by omega), hitems, Json.nodes]
    exact congrArg _ (by omega)
  | obj members ih =>
    intro depth nodes path hdepth hnodes
    obtain ⟨hd, hn⟩ := guards_pass hdepth hnodes
    simp only [Json.depth, Json.height, Json.nodes] at hdepth hnodes
    obtain ⟨hkeys, hmembers⟩ := Json.strict_obj.mp h
    have hlength := Json.length_le_membersNodes members
    have hmax : maxCollectionItems = maxNodes := rfl
    have hmembers := @validateMembers_ok limit (depth + 1) (nodes + 1) members []
      (fun m hm => ⟨(hmembers m hm).1, ih m hm (hmembers m hm).2⟩) hkeys
      (fun m hm => by have := Json.depth_le_membersHeight hm; omega) (by omega) path
    rw [validateLoop, if_neg hd, if_neg hn, if_neg (by omega), hmembers, Json.nodes]
    exact congrArg _ (by omega)

/-- Both checks of the tree of an admissible document. Its number of values needs no assumption:
each takes a byte of the text, and the text is within the document limit. -/
theorem validateJson_ok {del : Bool} {t : Json} (h : Admissible limit t)
    (hlength : (t.text del).length ≤ maxDocumentBytes) : validateJson limit t = .ok () := by
  have hdepth := h.depth
  have hnodes := Json.nodes_le_length del h.strict
  have hmax : maxNodes = maxDocumentBytes := rfl
  simp [validateJson, validates h.strict 1 0 _ (by omega) (by omega), bind, Except.bind, pure,
    Except.pure]

end Tree

theorem Admissible.normalize {limit : Nat} {t : Json} (h : Admissible limit t) :
    Admissible limit t.normalize :=
  ⟨Json.strict_normalize.mpr h.strict, (Json.height_normalize 1 t).trans_le h.depth⟩

theorem Admissible.utf8 {limit : Nat} {t : Json} (h : Admissible limit t) :
    t.strict (fun _ => true) validUtf8 = true :=
  Json.strict_mono (fun _ _ => rfl) (fun _ hs => (Bool.and_eq_true_iff.mp hs).1) h.strict

/-- What the OCaml decoder makes of the text of an admissible tree. -/
theorem parseStrict_text (yojson : JsonParser) {limit : Nat} {del : Bool} {t : Json}
    (h : Admissible limit t) (hlength : (t.text del).length ≤ maxDocumentBytes) :
    parseStrict yojson limit (t.text del) =
      if Fits del limit t then .ok t else .error stringError := by
  rw [parseStrict, preflight_text h.strict h.depth hlength, yojson.parse_text del t h.utf8]
  split_ifs with hfits
  · simp [validateJson_ok h hlength, bind, Except.bind, pure, Except.pure]
  · rfl

end Protocol.Control

namespace Bridge.Control

/-! ## The Rust side

The Rust scan decodes escapes while it counts, so that a string counts the bytes that it stands for.
It has no condition of its own on admissible trees, and `Clear` only says that it gets through. -/

section Scan

variable {del : Bool} {limit d : Nat}

/-- The scan gets through the rest of the document from outside of a string, whatever the unit and
the count of the last string were. -/
def Clear (limit d : Nat) (rest : Bytes) : Prop :=
  ∀ unit bytes, scan limit rest ⟨d, false, false, unit, 0, bytes⟩ = .ok ()

theorem toDigit16_hexDigit {n : UInt8} (h : n < 16) :
    toDigit16 (Json.hexDigit n) = some n.toNat :=
  @Json.forall_byte_lt 16 (fun n => toDigit16 (Json.hexDigit n) = some n.toNat) (by decide) n
    (UInt8.lt_iff_toNat_lt.mp h)

theorem scan_cons {b : UInt8} {rest : Bytes} {s s' : Scan} (h : s.byte limit b = .ok s') :
    scan limit (b :: rest) s = scan limit rest s' := by
  rw [scan, h]
  rfl

/-- Inside of a string every escape counts the one byte it stands for. -/
theorem scan_escape (b : UInt8) (rest : Bytes) (unit : Nat) {n : Nat} (hn : n + 1 ≤ limit) :
    ∃ unit', scan limit (escape del b ++ rest) ⟨d, true, false, unit, 0, n⟩ =
      scan limit rest ⟨d, true, false, unit', 0, n + 1⟩ := by
  have hlt : ¬ limit < n + 1 := by omega
  have hlt' : ¬ limit < n := by omega
  obtain ⟨he, h34, h92⟩ | ⟨e, h117, he⟩ | ⟨h, l, hh, hl, he⟩ := escape_cases del b
  · refine ⟨unit, ?_⟩
    rw [he]
    exact scan_cons (by simp [Scan.byte, Scan.decoded, h34, h92, hlt])
  · refine ⟨unit, ?_⟩
    rw [he]
    simp [scan, Scan.byte, Scan.decoded, h117, hlt, hlt', bind, Except.bind]
  · have hdigit := toDigit16_hexDigit (UInt8.lt_trans hh (by decide))
    have hdigit' := toDigit16_hexDigit hl
    have hzero : toDigit16 48 = some 0 := rfl
    have hunit : h.toNat * 16 + l.toNat ≤ 127 := by
      have := UInt8.lt_iff_toNat_lt.mp hh
      have := UInt8.lt_iff_toNat_lt.mp hl
      simp only [UInt8.reduceToNat] at *
      omega
    refine ⟨h.toNat * 16 + l.toNat, ?_⟩
    rw [he]
    simp [scan, Scan.byte, Scan.decoded, hdigit, hdigit', hzero, unicodeEscapeBytes, hunit, hlt,
      hlt', bind, Except.bind]

theorem Clear.quoted {s rest : Bytes} (h : Clear limit d rest) (unit : Nat) {n : Nat}
    (hn : n + s.length ≤ limit) :
    scan limit (s.flatMap (escape del) ++ 34 :: rest) ⟨d, true, false, unit, 0, n⟩ = .ok () := by
  induction s generalizing unit n with
  | nil =>
    have hlt : ¬ limit < n := by simpa using hn
    rw [List.flatMap_nil, List.nil_append, ← h unit n]
    exact scan_cons (by simp [Scan.byte, Scan.decoded, hlt])
  | cons b s ih =>
    rw [List.length_cons] at hn
    obtain ⟨unit', hb⟩ := @scan_escape del limit d b (s.flatMap (escape del) ++ 34 :: rest) unit n
      (by omega)
    rw [List.flatMap_cons, List.append_assoc, hb]
    exact ih unit' (by omega)

theorem Clear.quote {s rest : Bytes} (h : Clear limit d rest) (hs : s.length ≤ limit) :
    Clear limit d (quote del s ++ rest) := by
  intro unit n
  have hquoted := @Clear.quoted del limit d s rest h unit 0 (by omega)
  simpa [Json.quote, scan, Scan.byte, bind, Except.bind] using hquoted

theorem Clear.plain {bs rest : Bytes} (h : Clear limit d rest)
    (hbs : ∀ b ∈ bs, Protocol.Control.plain b = true) : Clear limit d (bs ++ rest) := by
  induction bs with
  | nil => exact h
  | cons b bs ih =>
    obtain ⟨hb, hbs⟩ := List.forall_mem_cons.mp hbs
    simp only [Protocol.Control.plain, Bool.and_eq_true, decide_eq_true_eq] at hb
    intro unit n
    rw [List.cons_append, ← ih hbs unit n]
    exact scan_cons (by simp [Scan.byte, hb])

theorem Clear.items {ts : List Json} {rest : Bytes} (h : Clear limit d rest)
    (hts : ∀ t ∈ ts, ∀ rest, Clear limit d rest → Clear limit d (t.text del ++ rest))
    (first : Bool) : Clear limit d (Json.itemsText del first ts ++ rest) := by
  induction ts generalizing first with
  | nil => exact h
  | cons t ts ih =>
    obtain ⟨ht, hts⟩ := List.forall_mem_cons.mp hts
    rw [Json.itemsText, List.append_assoc, List.append_assoc]
    exact (ht _ (ih hts false)).plain (by cases first <;> simp [Protocol.Control.plain])

theorem Clear.members {ms : List (Bytes × Json)} {rest : Bytes} (h : Clear limit d rest)
    (hms : ∀ m ∈ ms, m.1.length ≤ limit ∧
      ∀ rest, Clear limit d rest → Clear limit d (m.2.text del ++ rest))
    (first : Bool) : Clear limit d (Json.membersText del first ms ++ rest) := by
  induction ms generalizing first with
  | nil => exact h
  | cons m ms ih =>
    obtain ⟨⟨hkey, hm⟩, hms⟩ := List.forall_mem_cons.mp hms
    have hvalue : Clear limit d ([58] ++ (m.2.text del ++
        (Json.membersText del false ms ++ rest))) :=
      (hm _ (ih hms false)).plain (by simp [Protocol.Control.plain])
    rw [Json.membersText, List.append_assoc, List.append_assoc, List.cons_append, List.append_assoc]
    exact (hvalue.quote hkey).plain (by cases first <;> simp [Protocol.Control.plain])

theorem Clear.text {t : Json} {okInt : Int → Bool} {okText : Bytes → Bool}
    (hok : ∀ s, okText s = true → s.length ≤ limit) (hstrict : t.strict okInt okText = true)
    (hdepth : d + t.depth ≤ maxDepth) {rest : Bytes} (h : Clear limit d rest) :
    Clear limit d (t.text del ++ rest) := by
  induction t generalizing d rest with
  | null => exact h.plain (by simp [Json.text, Protocol.Control.plain])
  | bool b => cases b <;> exact h.plain (by simp [Json.text, Protocol.Control.plain])
  | int n => exact h.plain fun b => Protocol.Control.plain_of_mem_intText
  | float l => simp [Json.strict] at hstrict
  | str s => exact h.quote (hok s hstrict)
  | arr items ih =>
    rw [Json.depth, Json.height] at hdepth
    have hclose : Clear limit (d + 1) (93 :: rest) := by
      intro unit n
      rw [← h unit n]
      exact scan_cons (by simp [Scan.byte])
    have hitems : Clear limit (d + 1) (Json.itemsText del true items ++ 93 :: rest) :=
      hclose.items (fun t ht rest hrest => ih t ht (Json.strict_arr.mp hstrict t ht)
        (by have := Json.depth_le_itemsHeight ht; omega) hrest) true
    intro unit n
    rw [Json.text, List.cons_append, List.append_assoc, List.singleton_append,
      ← hitems unit n]
    exact scan_cons (by simp [Scan.byte, show ¬ maxDepth < d + 1 by omega])
  | obj members ih =>
    rw [Json.depth, Json.height] at hdepth
    obtain ⟨-, hmembers⟩ := Json.strict_obj.mp hstrict
    have hclose : Clear limit (d + 1) (125 :: rest) := by
      intro unit n
      rw [← h unit n]
      exact scan_cons (by simp [Scan.byte])
    have hmembers : Clear limit (d + 1) (Json.membersText del true members ++ 125 :: rest) :=
      hclose.members (fun m hm =>
        ⟨hok _ (hmembers m hm).1, fun rest hrest => ih m hm (hmembers m hm).2
          (by have := Json.depth_le_membersHeight hm; omega) hrest⟩) true
    intro unit n
    rw [Json.text, List.cons_append, List.append_assoc, List.singleton_append,
      ← hmembers unit n]
    exact scan_cons (by simp [Scan.byte, show ¬ maxDepth < d + 1 by omega])

theorem preflight_text {t : Json} {okInt : Int → Bool} {okText : Bytes → Bool}
    (hok : ∀ s, okText s = true → s.length ≤ limit) (hstrict : t.strict okInt okText = true)
    (hdepth : t.depth ≤ maxDepth) (hlength : (t.text del).length ≤ maxDocumentBytes) :
    preflight limit (t.text del) = .ok () := by
  have hend : Clear limit 0 [] := fun _ _ => rfl
  have h : Clear limit 0 (t.text del ++ []) := hend.text hok hstrict (by omega)
  rw [List.append_nil] at h
  rw [preflight, if_neg (by omega)]
  exact h 0 0

end Scan

/-! ### The visitor and the check of the tree

serde's visitor builds the tree and refuses duplicate keys and collections with too many items;
`validate_tree` then bounds its depth and its values. -/

section Tree

variable {limit depth nodes : Nat} {okText : Bytes → Bool}

theorem visitSeq_ok {ts : List Json} (h : ∀ t ∈ ts, visit t = some t) {count : Nat}
    (hlength : count + ts.length ≤ maxCollectionItems) : visitSeq count ts = some ts := by
  induction ts generalizing count with
  | nil => rfl
  | cons t ts ih =>
    obtain ⟨ht, hts⟩ := List.forall_mem_cons.mp h
    rw [List.length_cons] at hlength
    have hrest := @ih hts (count + 1) (by omega)
    simp [visitSeq, ht, hrest, show count ≠ maxCollectionItems by omega]

theorem visitMap_ok {ms : List (Bytes × Json)} (h : ∀ m ∈ ms, visit m.2 = some m.2)
    {seen : List Bytes} (hkeys : (seen.reverse ++ ms.map Prod.fst).Nodup)
    (hlength : seen.length + ms.length ≤ maxCollectionItems) : visitMap seen ms = some ms := by
  induction ms generalizing seen with
  | nil => rfl
  | cons m ms ih =>
    obtain ⟨hm, hms⟩ := List.forall_mem_cons.mp h
    rw [List.length_cons] at hlength
    have hnew : m.1 ∉ seen := by
      intro hseen
      exact (List.nodup_append.mp hkeys).2.2 m.1 (List.mem_reverse.mpr hseen) m.1
        List.mem_cons_self rfl
    have hrest := @ih hms (m.1 :: seen) (by simpa using hkeys) (by rw [List.length_cons]; omega)
    simp [visitMap, hm, hrest, hnew, show seen.length ≠ maxCollectionItems by omega]

theorem visit_ok {t : Json} (h : t.strict inInt64 okText = true)
    (hnodes : t.nodes ≤ maxCollectionItems) : visit t = some t := by
  induction t with
  | null => rfl
  | bool b => rfl
  | int n =>
    simp only [Json.strict] at h
    simp [visit, h]
  | float l => simp [Json.strict] at h
  | str s => rfl
  | arr items ih =>
    rw [Json.nodes] at hnodes
    have hlength := Json.length_le_itemsNodes items
    have hitems := @visitSeq_ok items (fun t ht => ih t ht (Json.strict_arr.mp h t ht)
      (by have := Json.nodes_le_itemsNodes ht; omega)) 0 (by omega)
    rw [visit, hitems, Option.map_some]
  | obj members ih =>
    rw [Json.nodes] at hnodes
    obtain ⟨hkeys, hmembers⟩ := Json.strict_obj.mp h
    have hlength := Json.length_le_membersNodes members
    have hmembers := @visitMap_ok members (fun m hm => ih m hm (hmembers m hm).2
      (by have := Json.nodes_le_membersNodes hm; omega)) [] hkeys (by simp; omega)
    rw [visit, hmembers, Option.map_some]

/-- The check of a tree goes through from any count that leaves room for it. -/
def Validates (limit : Nat) (t : Json) : Prop :=
  ∀ depth nodes : Nat, depth + t.depth ≤ maxDepth + 1 →
    nodes + t.nodes ≤ maxNodes → validateTree limit depth nodes t = .ok (nodes + t.nodes)

theorem validateTreeItems_ok {ts : List Json} (h : ∀ t ∈ ts, Validates limit t)
    (hdepth : ∀ t ∈ ts, depth + t.depth ≤ maxDepth + 1)
    (hnodes : nodes + Json.itemsNodes ts ≤ maxNodes) :
    validateTreeItems limit depth nodes ts = .ok (nodes + Json.itemsNodes ts) := by
  induction ts generalizing nodes with
  | nil => rfl
  | cons t ts ih =>
    obtain ⟨ht, hts⟩ := List.forall_mem_cons.mp h
    obtain ⟨hdt, hdts⟩ := List.forall_mem_cons.mp hdepth
    simp only [Json.itemsNodes, ← Nat.add_assoc] at hnodes ⊢
    simp only [validateTreeItems, ht depth nodes hdt (by omega), bind, Except.bind]
    exact ih hts hdts hnodes

theorem validateTreeMembers_ok {ms : List (Bytes × Json)}
    (h : ∀ m ∈ ms, m.1.length ≤ limit ∧ Validates limit m.2)
    (hdepth : ∀ m ∈ ms, depth + m.2.depth ≤ maxDepth + 1)
    (hnodes : nodes + Json.membersNodes ms ≤ maxNodes) :
    validateTreeMembers limit depth nodes ms = .ok (nodes + Json.membersNodes ms) := by
  induction ms generalizing nodes with
  | nil => rfl
  | cons m ms ih =>
    obtain ⟨⟨hkey, hm⟩, hms⟩ := List.forall_mem_cons.mp h
    obtain ⟨hdm, hdms⟩ := List.forall_mem_cons.mp hdepth
    simp only [Json.membersNodes, ← Nat.add_assoc] at hnodes ⊢
    have hrest := @ih (nodes + m.2.nodes) hms hdms hnodes
    simpa [validateTreeMembers, Nat.not_lt.mpr hkey, hm depth nodes hdm (by omega), bind,
      Except.bind, pure, Except.pure] using hrest

theorem guard_passes {t : Json} (hdepth : depth + t.depth ≤ maxDepth + 1)
    (hnodes : nodes + t.nodes ≤ maxNodes) : ¬ (nodes + 1 > maxNodes ∨ depth > maxDepth) := by
  have := t.nodes_pos
  have := t.depth_pos
  omega

theorem validates {t : Json} (hok : ∀ s, okText s = true → s.length ≤ limit)
    (h : t.strict inInt64 okText = true) : Validates limit t := by
  induction t with
  | null =>
    intro depth nodes hdepth hnodes
    rw [validateTree.eq_def, if_neg (guard_passes hdepth hnodes)]
    rfl
  | bool b =>
    intro depth nodes hdepth hnodes
    rw [validateTree.eq_def, if_neg (guard_passes hdepth hnodes)]
    rfl
  | int n =>
    intro depth nodes hdepth hnodes
    rw [validateTree.eq_def, if_neg (guard_passes hdepth hnodes)]
    rfl
  | float l => simp [Json.strict] at h
  | str s =>
    intro depth nodes hdepth hnodes
    rw [validateTree.eq_def, if_neg (guard_passes hdepth hnodes)]
    exact if_neg (Nat.not_lt.mpr (hok s h))
  | arr items ih =>
    intro depth nodes hdepth hnodes
    rw [validateTree.eq_def, if_neg (guard_passes hdepth hnodes)]
    simp only [Json.depth, Json.height, Json.nodes] at hdepth hnodes ⊢
    have hitems := @validateTreeItems_ok limit (depth + 1) (nodes + 1) items
      (fun t ht => ih t ht (Json.strict_arr.mp h t ht))
      (fun t ht => by have := Json.depth_le_itemsHeight ht; omega) (by omega)
    rw [hitems]
    exact congrArg _ (by omega)
  | obj members ih =>
    intro depth nodes hdepth hnodes
    rw [validateTree.eq_def, if_neg (guard_passes hdepth hnodes)]
    simp only [Json.depth, Json.height, Json.nodes] at hdepth hnodes ⊢
    obtain ⟨-, hmembers⟩ := Json.strict_obj.mp h
    have hmembers := @validateTreeMembers_ok limit (depth + 1) (nodes + 1) members
      (fun m hm => ⟨hok _ (hmembers m hm).1, ih m hm (hmembers m hm).2⟩)
      (fun m hm => by have := Json.depth_le_membersHeight hm; omega) (by omega)
    rw [hmembers]
    exact congrArg _ (by omega)

end Tree

section Documents

variable {limit : Nat} {del : Bool} {t : Json}

theorem length_le_of_admissible (s : Bytes) (h : (validUtf8 s && s.length ≤ limit) = true) :
    s.length ≤ limit :=
  decide_eq_true_eq.mp (Bool.and_eq_true_iff.mp h).2

theorem preflight_admissible (h : Protocol.Control.Admissible limit t)
    (hlength : (t.text del).length ≤ maxDocumentBytes) :
    preflight limit (t.text del) = .ok () :=
  preflight_text length_le_of_admissible h.strict h.depth hlength

theorem validateTree_admissible (h : Protocol.Control.Admissible limit t)
    (hlength : (t.text del).length ≤ maxDocumentBytes) :
    validateTree limit 1 0 t = .ok (0 + t.nodes) := by
  have hdepth : t.depth ≤ maxDepth := h.depth
  have hnodes := Json.nodes_le_length del h.strict
  have hmax : maxNodes = maxDocumentBytes := rfl
  exact validates length_le_of_admissible h.strict 1 0 (by omega) (by omega)

def strictError : ProtocolError := .invalid "$" "invalid strict JSON document"

/-- What the Rust decoder makes of the text of an admissible tree. -/
theorem parseStrict_text (serde : SerdeParser) (h : Protocol.Control.Admissible limit t)
    (hlength : (t.text del).length ≤ maxDocumentBytes) :
    parseStrictWithStringLimit serde limit (t.text del) =
      if t.containers < remainingDepth then .ok t else .error strictError := by
  have hvisit : visit t = some t := by
    have hnodes := Json.nodes_le_length del h.strict
    have hmax : maxCollectionItems = maxDocumentBytes := rfl
    exact visit_ok h.strict (by omega)
  have htree := validateTree_admissible h hlength
  rw [parseStrictWithStringLimit, preflight_admissible h hlength,
    serde.deserialize_text del t h.utf8]
  split_ifs with hguard
  · simp [hvisit, htree, endOfInput, bind, Except.bind, pure, Except.pure]
  · rfl

end Documents

end Bridge.Control

/-! ## Canonical documents

In a canonical document the members of every object are sorted by key. `normalize` is that order,
and the results are about the text of a normalized object, read back by either decoder. -/

section Canonical

variable {limit : Nat} {del : Bool} {members : List (Bytes × Json)}

theorem Protocol.Control.decodeWith_text (yojson : JsonParser)
    (h : Protocol.Control.Admissible limit (.obj members))
    (hlength : ((Json.obj members).text del).length ≤ Protocol.Control.maxDocumentBytes) :
    Protocol.Control.decodeWith yojson limit ((Json.obj members).text del) =
      if Protocol.Control.Fits del limit (.obj members) then .ok (.obj members)
      else .error Protocol.Control.stringError := by
  rw [Protocol.Control.decodeWith, Protocol.Control.parseStrict_text yojson h hlength]
  split_ifs <;> rfl

theorem Bridge.Control.decodeWith_text (serde : SerdeParser)
    (h : Protocol.Control.Admissible limit (.obj members))
    (hlength : ((Json.obj members).text del).length ≤ maxDocumentBytes) :
    decodeWith serde limit ((Json.obj members).text del) =
      if (Json.obj members).containers < remainingDepth then .ok (.obj members)
      else .error strictError := by
  rw [decodeWith, parseStrict_text serde h hlength]
  split_ifs <;> rfl

end Canonical

namespace Protocol.Control

/-- **Canonical documents in both languages.** For an admissible object whose canonical
text is within the document limit, the Rust scan accepts the text and both checks of the tree
accept the tree. The Rust decoder returns the tree exactly if it has at most 127 nested
collections, which is what serde_json's own guard lets pass. The OCaml scan, and with it the
OCaml decoder, accepts the text exactly if no key or string is scanned past the limit of a
string. So both decoders return the tree exactly if it meets the two conditions. -/
theorem canonical_documents_accepted (yojson : JsonParser) (serde : Bridge.Control.SerdeParser)
    (del : Bool) (limit : Nat) (members : List (Bytes × Json))
    (h : Admissible limit (.obj members))
    (hlength : ((Json.obj members).normalize.text del).length ≤ maxDocumentBytes) :
    Bridge.Control.preflight limit ((Json.obj members).normalize.text del) = .ok () ∧
      (∃ nodes, Bridge.Control.validateTree limit 1 0 (Json.obj members).normalize = .ok nodes) ∧
      (Bridge.Control.decodeWith serde limit ((Json.obj members).normalize.text del) =
          .ok (Json.obj members).normalize ↔
        (Json.obj members).containers ≤ 127) ∧
      validateJson limit (Json.obj members).normalize = .ok () ∧
      (preflight limit ((Json.obj members).normalize.text del) = .ok () ↔
        Fits del limit (.obj members)) ∧
      (decodeWith yojson limit ((Json.obj members).normalize.text del) =
          .ok (Json.obj members).normalize ↔
        Fits del limit (.obj members)) := by
  have hsorted := h.normalize
  have hfits : Fits del limit (Json.obj members).normalize ↔ Fits del limit (.obj members) :=
    Json.strict_normalize
  have hcontainers : (Json.obj members).normalize.containers = (Json.obj members).containers :=
    Json.height_normalize 0 _
  refine ⟨Bridge.Control.preflight_admissible hsorted hlength,
    ⟨_, Bridge.Control.validateTree_admissible hsorted hlength⟩, ?_,
    validateJson_ok hsorted hlength, ?_, ?_⟩
  · have hdecode : Bridge.Control.decodeWith serde limit ((Json.obj members).normalize.text del) =
        if (Json.obj members).normalize.containers < Bridge.Control.remainingDepth then
          .ok (Json.obj members).normalize
        else .error Bridge.Control.strictError :=
      Bridge.Control.decodeWith_text serde hsorted hlength
    rw [hdecode, hcontainers, Bridge.Control.remainingDepth]
    split_ifs with hguard
    · exact iff_of_true rfl (Nat.le_of_lt_succ hguard)
    · exact iff_of_false nofun (by omega)
  · rw [preflight_text hsorted.strict hsorted.depth hlength, ← hfits]
    split_ifs with hf <;> simp [hf]
  · have hdecode : decodeWith yojson limit ((Json.obj members).normalize.text del) =
        if Fits del limit (Json.obj members).normalize then .ok (Json.obj members).normalize
        else .error stringError := decodeWith_text yojson hsorted hlength
    rw [hdecode, ← hfits]
    split_ifs with hf <;> simp [hf]

def controlText : List (Bytes × Json) := [(text "text", .str [1, 10, 127]), (text "n", .int (-7))]

theorem canonical_documents_accepted_controlText :
    Bridge.Control.decodeWith .reference 12 ((Json.obj controlText).normalize.text true) =
        .ok (Json.obj controlText).normalize ∧
      decodeWith .reference 12 ((Json.obj controlText).normalize.text true) =
        .ok (Json.obj controlText).normalize := by
  obtain ⟨-, -, hserde, -, -, hyojson⟩ := canonical_documents_accepted .reference .reference true 12
    controlText ⟨by decide +kernel, by decide +kernel⟩ (by decide +kernel)
  exact ⟨hserde.mpr (by decide +kernel), hyojson.mpr (by decide +kernel)⟩

/-- An object with one text of control characters that have no letter. -/
def controlRun (n : Nat) : Json := .obj [([], .str (List.replicate n 1))]

theorem admissible_controlRun {n limit : Nat} (h : n ≤ limit) :
    Admissible limit (controlRun n) := by
  have hutf8 : ∀ n, validUtf8 (List.replicate n 1) = true := by
    intro n
    induction n with
    | zero => rfl
    | succ n ih => rw [List.replicate_succ, validUtf8.eq_def]; simpa using ih
  refine ⟨?_, (by decide : 2 ≤ maxDepth)⟩
  simp [controlRun, Json.strict, Json.strictMembers, hutf8, h, validUtf8]

theorem length_controlRun (del : Bool) (n : Nat) :
    ((controlRun n).text del).length = 6 * n + 7 := by
  have hescape : ∀ n, ((List.replicate n 1).flatMap (escape del)).length = n * 6 := by
    intro n
    cases del <;> simp [List.length_flatMap, escape]
  simp [controlRun, Json.text, Json.membersText, quote, hescape]
  omega

theorem fits_controlRun (del : Bool) (limit n : Nat) :
    Fits del limit (controlRun n) ↔ 4 * n ≤ limit := by
  have hcount : counted del 1 = 4 := by cases del <;> rfl
  simp [Fits, controlRun, Json.strict, Json.strictMembers, scanned, hcount, Nat.mul_comm]

/-- A tower of `n + 1` nested objects, the innermost of them empty. -/
def tower : Nat → Json
  | 0 => .obj []
  | n + 1 => .obj [([], tower n)]

theorem normalize_tower (n : Nat) : (tower n).normalize = tower n := by
  induction n with
  | zero => rfl
  | succ n ih => exact congrArg (fun t => Json.obj [([], t)]) ih

/-- Two admissible documents that one side refuses. 16,385 control characters are 16,385
decoded bytes, well below the limit of 65,536: both tree checks and the Rust decoder accept
that document, and the OCaml scan counts 65,540. A tower of 128 objects is at the limit on
the depth: both scans, both tree checks and the OCaml decoder accept that document, and
serde_json's guard refuses the innermost object. -/
theorem admissible_documents_rejected :
    (Admissible maxStringBytes (controlRun 16385) ∧
      ((controlRun 16385).normalize.text true).length ≤ maxDocumentBytes ∧
      (∀ serde : Bridge.Control.SerdeParser,
        Bridge.Control.decodeObject serde ((controlRun 16385).normalize.text true) =
          .ok (controlRun 16385).normalize) ∧
      validateJson maxStringBytes (controlRun 16385).normalize = .ok () ∧
      preflight maxStringBytes ((controlRun 16385).normalize.text true) =
        .error (invalid "JSON string byte limit exceeded") ∧
      (∀ yojson : JsonParser,
        decodeObject yojson ((controlRun 16385).normalize.text true) =
          .error (invalid "JSON string byte limit exceeded"))) ∧
    (Admissible maxStringBytes (tower 127) ∧
      ((tower 127).normalize.text true).length ≤ maxDocumentBytes ∧
      (∀ yojson : JsonParser,
        decodeObject yojson ((tower 127).normalize.text true) = .ok (tower 127).normalize) ∧
      (∃ nodes, Bridge.Control.validateTree maxStringBytes 1 0 (tower 127).normalize = .ok nodes) ∧
      Bridge.Control.preflight maxStringBytes ((tower 127).normalize.text true) = .ok () ∧
      (∀ serde : Bridge.Control.SerdeParser,
        Bridge.Control.decodeObject serde ((tower 127).normalize.text true) =
          .error (.invalid "$" "invalid strict JSON document"))) := by
  constructor
  · have hsorted : (controlRun 16385).normalize = controlRun 16385 := rfl
    have hadm : Admissible maxStringBytes (controlRun 16385) :=
      admissible_controlRun (by decide)
    have hlength : ((controlRun 16385).text true).length ≤ maxDocumentBytes := by
      rw [length_controlRun]
      decide
    have hfits : ¬ Fits true maxStringBytes (controlRun 16385) := by
      rw [fits_controlRun]
      decide
    rw [hsorted]
    refine ⟨hadm, hlength, fun serde => ?_, validateJson_ok hadm hlength, ?_, ?_⟩
    · have hdecode := Bridge.Control.decodeWith_text serde hadm hlength
      rwa [if_pos (by decide)] at hdecode
    · rw [preflight_text hadm.strict hadm.depth hlength, if_neg hfits]
      rfl
    · intro yojson
      have hdecode := decodeWith_text yojson hadm hlength
      rw [← controlRun, if_neg hfits] at hdecode
      exact hdecode
  · have hadm : Admissible maxStringBytes (tower 127) := ⟨by decide +kernel, by decide +kernel⟩
    have hlength : ((tower 127).text true).length ≤ maxDocumentBytes := by decide +kernel
    rw [normalize_tower]
    refine ⟨hadm, hlength, fun yojson => ?_,
      ⟨_, Bridge.Control.validateTree_admissible hadm hlength⟩,
      Bridge.Control.preflight_admissible hadm hlength, fun serde => ?_⟩
    · have hdecode := decodeWith_text yojson hadm hlength
      rwa [if_pos (by decide +kernel)] at hdecode
    · have hdecode := Bridge.Control.decodeWith_text serde hadm hlength
      rwa [if_neg (by decide +kernel)] at hdecode

end Protocol.Control
end OcamlTemporal
