import Mathlib.Data.List.Nodup
import Mathlib.Data.List.Perm.Basic

/-!
# OcamlTemporal.Lib.Keyed

**Finite maps whose entries know their key**, as a hash map of records: a list of
entries with distinct keys, carried as a field. The order of the list is an order in
which the map may be walked; `Keyed.reorder` changes it.

* `Keyed.mem_iff_find?` says what the map holds, `find?_erase` and `find?_set` what the
  operations do to it.
* `Keyed.perm_of_find?` splits an entry off: whatever is counted over the entries is
  counted over the entry and the rest.
-/

namespace OcamlTemporal.Lib

/-- A map from keys to entries, listed in some order. -/
structure Keyed {α κ : Type*} (key : α → κ) where
  entries : List α
  nodup : (entries.map key).Nodup

namespace Keyed

variable {α κ : Type*} {key : α → κ}

def empty : Keyed key := ⟨[], List.nodup_nil⟩

instance : Membership α (Keyed key) := ⟨fun m a => a ∈ m.entries⟩

variable {m : Keyed key} {a b : α} {k : κ}

theorem mem_def : a ∈ m ↔ a ∈ m.entries := Iff.rfl

theorem eq_of_key (ha : a ∈ m) (hb : b ∈ m) (h : key a = key b) : a = b :=
  List.inj_on_of_nodup_map m.nodup ha hb h

def filter (m : Keyed key) (p : α → Bool) : Keyed key :=
  ⟨m.entries.filter p, m.nodup.sublist (List.filter_sublist.map key)⟩

@[simp] theorem mem_filter {p : α → Bool} : a ∈ m.filter p ↔ a ∈ m ∧ p a = true := List.mem_filter

/-- The map with every entry changed, but not its key. -/
def map (m : Keyed key) (f : α → α) (h : ∀ a, key (f a) = key a) : Keyed key :=
  ⟨m.entries.map f, by rw [List.map_map, show key ∘ f = key from funext h]; exact m.nodup⟩

@[simp] theorem mem_map {f : α → α} {h : ∀ a, key (f a) = key a} :
    b ∈ m.map f h ↔ ∃ a ∈ m, f a = b := List.mem_map

variable [DecidableEq κ]

def find? (m : Keyed key) (k : κ) : Option α := m.entries.find? fun a => key a = k

def erase (m : Keyed key) (k : κ) : Keyed key := m.filter fun a => key a ≠ k

/-- The map with an entry, in place of any other entry with its key. -/
def set (m : Keyed key) (a : α) : Keyed key where
  entries := a :: (m.erase (key a)).entries
  nodup := by
    rw [List.map_cons, List.nodup_cons]
    refine ⟨fun hmem => ?_, (m.erase (key a)).nodup⟩
    obtain ⟨b, hb, hkey⟩ := List.mem_map.mp hmem
    have hne := (List.mem_filter.mp hb).2
    simp [hkey] at hne

@[simp] theorem mem_erase : a ∈ m.erase k ↔ a ∈ m ∧ key a ≠ k := by
  simp [erase]

@[simp] theorem mem_set : b ∈ m.set a ↔ b = a ∨ b ∈ m ∧ key b ≠ key a := by
  simp [mem_def, set, erase, filter]

@[simp] theorem entries_set (m : Keyed key) (a : α) :
    (m.set a).entries = a :: (m.erase (key a)).entries := rfl

theorem mem_iff_find? : m.find? k = some a ↔ a ∈ m ∧ key a = k := by
  constructor
  · intro h
    exact ⟨List.mem_of_find?_eq_some h, by simpa using List.find?_some h⟩
  · rintro ⟨hmem, rfl⟩
    cases h : m.find? (key a) with
    | none => simpa using List.find?_eq_none.mp h a hmem
    | some b =>
      have hkey : key b = key a := by simpa using List.find?_some h
      rw [eq_of_key (List.mem_of_find?_eq_some h) hmem hkey]

theorem find?_eq_none : m.find? k = none ↔ ∀ a ∈ m, key a ≠ k := by
  simp [find?, mem_def]

theorem find?_erase (m : Keyed key) (k k' : κ) :
    (m.erase k).find? k' = if k' = k then none else m.find? k' := by
  split
  · next h =>
    subst h
    exact find?_eq_none.mpr fun a ha => (mem_erase.mp ha).2
  · next h =>
    cases hfind : m.find? k' with
    | none => exact find?_eq_none.mpr fun a ha => find?_eq_none.mp hfind a (mem_erase.mp ha).1
    | some a =>
      obtain ⟨hmem, rfl⟩ := mem_iff_find?.mp hfind
      exact mem_iff_find?.mpr ⟨mem_erase.mpr ⟨hmem, h⟩, rfl⟩

theorem find?_set (m : Keyed key) (a : α) (k : κ) :
    (m.set a).find? k = if k = key a then some a else m.find? k := by
  split
  · next h => exact mem_iff_find?.mpr ⟨mem_set.mpr (.inl rfl), h.symm⟩
  · next h =>
    cases hfind : m.find? k with
    | none =>
      refine find?_eq_none.mpr fun b hb => ?_
      rcases mem_set.mp hb with rfl | ⟨hb, -⟩
      · exact Ne.symm h
      · exact find?_eq_none.mp hfind b hb
    | some b =>
      obtain ⟨hmem, rfl⟩ := mem_iff_find?.mp hfind
      exact mem_iff_find?.mpr ⟨mem_set.mpr (.inr ⟨hmem, h⟩), rfl⟩

theorem erase_of_find?_eq_none (h : m.find? k = none) : (m.erase k).entries = m.entries :=
  List.filter_eq_self.mpr fun a ha => by simpa using find?_eq_none.mp h a ha

theorem perm_of_find? (h : m.find? k = some a) : m.entries.Perm (a :: (m.erase k).entries) := by
  obtain ⟨hmem, rfl⟩ := mem_iff_find?.mp h
  classical
  have hrest : (m.erase (key a)).entries = m.entries.erase a := by
    rw [m.nodup.of_map.erase_eq_filter]
    refine List.filter_congr fun b hb => ?_
    have hiff : key b = key a ↔ b = a := ⟨eq_of_key hb hmem, congrArg key⟩
    by_cases hab : b = a <;> simp [hiff, hab]
  rw [hrest]
  exact List.perm_cons_erase hmem

end Keyed

end OcamlTemporal.Lib
