import Colloquy.Table
import Mathlib.Data.List.Forall2
import Mathlib.Tactic.Common

/-!
# Tables read as maps

What a table holds under a key, when tables are put together from parts, and the tables in which no
key comes twice: such a list of entries is the table that is made of it.  Two tables that differ
under one key only stay so when they are put together alike.
-/

namespace Colloquy.Table

variable {α β : Type}

@[simp] lemma get?_nil (key : String) : get? ([] : Table α) key = none := rfl

lemma get?_map (f : α → β) (table : Table α) (key : String) :
    get? (table.map fun m => (m.1, f m.2)) key = (get? table key).map f := by
  induction table with
  | nil => rfl
  | cons m rest ih =>
    obtain ⟨k, v⟩ := m
    rw [List.map_cons, get?_cons, get?_cons, ih]
    split <;> rfl

lemma get?_append (first second : Table α) (key : String) :
    get? (first ++ second : Table α) key = (get? first key).or (get? second key) := by
  induction first with
  | nil => rfl
  | cons m rest ih =>
    obtain ⟨k, v⟩ := m
    rw [List.cons_append, get?_cons, get?_cons, ih]
    split <;> rfl

/-- What a table has under a key is one of its entries. -/
lemma mem_of_get? {table : Table α} {key : String} {value : α} (h : get? table key = some value) :
    (key, value) ∈ table := by
  obtain ⟨before, after, rfl, _⟩ := List.lookup_eq_some_iff.mp h
  exact List.mem_append_right _ List.mem_cons_self

lemma get?_of_mem {table : Table α} (h : table.keys.Nodup) {m : String × α} (hm : m ∈ table) :
    table.get? m.1 = some m.2 := by
  induction table with
  | nil => cases hm
  | cons n rest ih =>
    obtain ⟨k, v⟩ := n
    obtain ⟨own, others⟩ := List.nodup_cons.mp h
    rw [get?_cons]
    rcases List.mem_cons.mp hm with rfl | hm
    · rw [if_pos rfl]
    · have member : m.1 ∈ keys rest := List.mem_map_of_mem hm
      have other : m.1 ≠ k := by
        rintro rfl
        exact own member
      rw [if_neg other, ih others hm]

/-- There is a value under the keys that a table has, and under no others. -/
lemma has_iff_mem_keys {table : Table α} {key : String} :
    table.has key = true ↔ key ∈ table.keys := by
  induction table with
  | nil => simp [has, get?, keys]
  | cons m rest ih =>
    obtain ⟨k, v⟩ := m
    rw [has, get?_cons, keys, List.map_cons, List.mem_cons, ← keys, ← ih, has]
    split
    · simp_all
    · simp_all

lemma get?_eq_none {table : Table α} {key : String} (h : key ∉ table.keys) :
    table.get? key = none := by
  rw [← has_iff_mem_keys, has, Bool.not_eq_true, Option.isSome_eq_false_iff] at h
  exact Option.isNone_iff_eq_none.mp h

lemma set_eq_append {table : Table α} {key : String} (h : key ∉ table.keys) (value : α) :
    table.set key value = table ++ [(key, value)] := by
  induction table with
  | nil => rfl
  | cons m rest ih =>
    obtain ⟨k, v⟩ := m
    rw [keys, List.map_cons, List.mem_cons, not_or, ← keys] at h
    rw [set, if_neg (Ne.symm h.1), ih h.2]
    rfl

lemma keys_set {table : Table α} {key : String} (h : key ∈ table.keys) (value : α) :
    (table.set key value).keys = table.keys := by
  induction table with
  | nil => cases h
  | cons m rest ih =>
    obtain ⟨k, v⟩ := m
    rw [set]
    split
    · rename_i hk
      rw [keys, keys, List.map_cons, List.map_cons, hk]
    · rename_i hk
      have member : key ∈ keys rest := (List.mem_cons.mp h).resolve_left fun he => hk he.symm
      exact congrArg (k :: ·) (ih member)

lemma nodup_keys_set {table : Table α} (h : table.keys.Nodup) (key : String) (value : α) :
    (table.set key value).keys.Nodup := by
  by_cases hk : key ∈ table.keys
  · rwa [keys_set hk]
  · rw [set_eq_append hk, keys, List.map_append, List.nodup_append]
    refine ⟨h, List.pairwise_singleton _ _, fun a ha b hb he => hk ?_⟩
    obtain rfl : b = key := List.mem_singleton.mp hb
    rwa [← he]

lemma mem_of_mem_set {table : Table α} {key : String} {value : α} {m : String × α}
    (h : m ∈ table.set key value) : m ∈ table ∨ m = (key, value) := by
  induction table with
  | nil => exact .inr (List.mem_singleton.mp h)
  | cons n rest ih =>
    obtain ⟨k, v⟩ := n
    rw [set] at h
    split at h
    · rcases List.mem_cons.mp h with rfl | h
      · exact .inr rfl
      · exact .inl (List.mem_cons_of_mem _ h)
    · rcases List.mem_cons.mp h with rfl | h
      · exact .inl List.mem_cons_self
      · exact (ih h).imp_left (List.mem_cons_of_mem _)

/-- Setting a key leaves the entries under other keys as they are. -/
lemma filter_set_ne (table : Table α) (key : String) (value : α) :
    (table.set key value).filter (·.1 ≠ key) = table.filter (·.1 ≠ key) := by
  induction table with
  | nil => simp [set]
  | cons m rest ih =>
    obtain ⟨k, v⟩ := m
    by_cases h : k = key
    · simp [set, h]
    · simp only [set, if_neg h, List.filter_cons, ih]

lemma overlay_eq_append {base top : Table α} (h : (keys (base ++ top)).Nodup) :
    base.overlay top = base ++ top := by
  induction top generalizing base with
  | nil => exact (List.append_nil base).symm
  | cons m rest ih =>
    obtain ⟨k, v⟩ := m
    have fresh : k ∉ keys base := by
      rw [keys, List.map_append, List.nodup_append] at h
      exact fun hk => h.2.2 k hk k List.mem_cons_self rfl
    have step : (base.set k v).overlay rest = base.set k v ++ rest := by
      refine ih ?_
      rw [set_eq_append fresh, List.append_assoc]
      exact h
    rw [overlay, List.foldl_cons, ← overlay, step, set_eq_append fresh, List.append_assoc]
    rfl

/-- Entries whose keys differ are the table that is made of them. -/
lemma ofList_eq_self {entries : Table α} (h : entries.keys.Nodup) : ofList entries = entries :=
  overlay_eq_append h

/-- A table that is made of entries has no key twice, and no other entries. -/
lemma ofList_spec (entries : Table α) :
    (ofList entries).keys.Nodup ∧ ∀ m ∈ ofList entries, m ∈ entries := by
  have overlaid (base : Table α) (h : base.keys.Nodup) :
      (base.overlay entries).keys.Nodup ∧
        ∀ m ∈ base.overlay entries, m ∈ base ∨ m ∈ entries := by
    induction entries generalizing base with
    | nil => exact ⟨h, fun m hm => .inl hm⟩
    | cons n rest ih =>
      obtain ⟨nodup, members⟩ := ih (base.set n.1 n.2) (nodup_keys_set h n.1 n.2)
      refine ⟨nodup, fun m hm => ?_⟩
      rcases members m hm with hm | hm
      · rcases mem_of_mem_set hm with hm | rfl
        · exact .inl hm
        · exact .inr List.mem_cons_self
      · exact .inr (List.mem_cons_of_mem _ hm)
  obtain ⟨nodup, members⟩ := overlaid [] List.nodup_nil
  exact ⟨nodup, fun m hm => (members m hm).resolve_left List.not_mem_nil⟩

/-! ## Tables that differ under one key -/

/-- The tables hold the same under the same keys, but for one key. -/
def SameBut (key : String) (table table' : Table α) : Prop :=
  List.Forall₂ (fun m m' => m'.1 = m.1 ∧ (m.1 ≠ key → m'.2 = m.2)) table table'

namespace SameBut

variable {key : String} {table table' : Table α}

lemma symm (h : SameBut key table table') : SameBut key table' table := by
  refine List.Forall₂.flip (h.imp fun m m' hm => ⟨hm.1.symm, fun hk => ?_⟩)
  exact (hm.2 (hm.1 ▸ hk)).symm

lemma keys_eq (h : SameBut key table table') : table'.keys = table.keys := by
  induction h with
  | nil => rfl
  | cons hm _ ih => exact congrArg₂ List.cons hm.1 ih

lemma get?_eq (h : SameBut key table table') {k : String} (hk : k ≠ key) :
    table'.get? k = table.get? k := by
  induction h with
  | nil => rfl
  | @cons m m' rest rest' hm _ ih =>
    obtain ⟨k₁, v₁⟩ := m
    obtain ⟨k₂, v₂⟩ := m'
    obtain ⟨rfl, hv⟩ := hm
    rw [get?_cons, get?_cons, ih]
    split
    · rename_i he
      obtain rfl : v₂ = v₁ := hv (he ▸ hk)
      rfl
    · rfl

lemma mem (h : SameBut key table table') {m : String × α} (hm : m ∈ table) (hk : m.1 ≠ key) :
    m ∈ table' := by
  induction h with
  | nil => cases hm
  | @cons n n' rest rest' hn _ ih =>
    rcases List.mem_cons.mp hm with rfl | hm
    · obtain rfl : n' = m := Prod.ext hn.1 (hn.2 hk)
      exact List.mem_cons_self
    · exact List.mem_cons_of_mem _ (ih hm)

lemma set (h : SameBut key table table') {k : String} {v v' : α} (hv : k ≠ key → v' = v) :
    SameBut key (table.set k v) (table'.set k v') := by
  induction h with
  | nil => exact .cons ⟨rfl, hv⟩ .nil
  | @cons m m' rest rest' hm hrest ih =>
    obtain ⟨k₁, v₁⟩ := m
    obtain ⟨k₂, v₂⟩ := m'
    obtain ⟨rfl, hm⟩ := hm
    rw [Table.set, Table.set]
    split
    · exact .cons ⟨rfl, hv⟩ hrest
    · exact .cons ⟨rfl, hm⟩ ih

lemma overlay {base base' : Table α} (hb : SameBut key base base')
    (h : SameBut key table table') : SameBut key (base.overlay table) (base'.overlay table') := by
  induction h generalizing base base' with
  | nil => exact hb
  | @cons m m' rest rest' hm _ ih =>
    obtain ⟨k₁, v₁⟩ := m
    obtain ⟨k₂, v₂⟩ := m'
    obtain ⟨rfl, hm⟩ := hm
    exact ih (hb.set hm)

lemma ofList (h : SameBut key table table') :
    SameBut key (Table.ofList table) (Table.ofList table') :=
  overlay .nil h

end SameBut

end Colloquy.Table
