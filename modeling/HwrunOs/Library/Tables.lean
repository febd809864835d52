import Mathlib.Data.Finmap

/-!
# Tables of keyed records

A table is a list of records, in whatever order its operations leave them. As long as no key is
there twice it stands for a finite map: a record put in is an entry, a record taken out is an
entry erased, and the order does not matter.
-/

namespace HwrunOs.Tables

variable {κ ρ : Type*} {key : ρ → κ}

/-- The records of a table are the entries of a map, each once. -/
structure Represents (key : ρ → κ) [DecidableEq κ] (table : List ρ)
    (map : Finmap fun _ : κ => ρ) : Prop where
  /-- No key is twice in the table. -/
  distinct : (table.map key).Nodup
  /-- The map has each record under its own key, and nothing else. -/
  entries : ∀ name record, map.lookup name = some record ↔ record ∈ table ∧ key record = name

variable [DecidableEq κ] {table : List ρ} {map : Finmap fun _ : κ => ρ}

/-- An empty table is the empty map. -/
theorem Represents.nil : Represents key [] ∅ where
  distinct := List.nodup_nil
  entries name record := by simp

/-- The order of the table does not matter. -/
theorem Represents.perm (represents : Represents key table map) {other : List ρ}
    (same : table.Perm other) : Represents key other map where
  distinct := (same.map key).nodup_iff.mp represents.distinct
  entries name record := by rw [represents.entries, same.mem_iff]

/-- A key of the table is a key of the map. -/
theorem Represents.mem_iff (represents : Represents key table map) {name : κ} :
    name ∈ map ↔ name ∈ table.map key := by
  rw [Finmap.mem_iff, List.mem_map]
  constructor
  · rintro ⟨record, found⟩
    exact ⟨record, (represents.entries name record).mp found⟩
  · rintro ⟨record, listed⟩
    exact ⟨record, (represents.entries name record).mpr listed⟩

/-- The map has as many keys as the table has records. -/
theorem Represents.card (represents : Represents key table map) :
    map.keys.card = table.length := by
  have keys : map.keys = (table.map key).toFinset := by
    ext name
    rw [Finmap.mem_keys, represents.mem_iff, List.mem_toFinset]
  rw [keys, List.toFinset_card_of_nodup represents.distinct, List.length_map]

/-- Searching the table for a key is a lookup in the map. -/
theorem Represents.find (represents : Represents key table map) {matching : ρ → Bool} {name : κ}
    (asks : ∀ record, matching record = true ↔ key record = name) :
    table.find? matching = map.lookup name := by
  cases found : table.find? matching with
  | none =>
    cases held : map.lookup name with
    | none => rfl
    | some record =>
      obtain ⟨listed, under⟩ := (represents.entries name record).mp held
      exact absurd ((asks record).mpr under) (List.find?_eq_none.mp found record listed)
  | some record =>
    have matched : matching record = true := List.find?_some found
    symm
    apply (represents.entries name record).mpr
    exact ⟨List.mem_of_find?_eq_some found, (asks record).mp matched⟩

/-- A record with a new key is one more entry. -/
theorem Represents.cons (represents : Represents key table map) {record : ρ}
    (fresh : key record ∉ table.map key) :
    Represents key (record :: table) (map.insert (key record) record) where
  distinct := List.nodup_cons.mpr ⟨fresh, represents.distinct⟩
  entries name other := by
    rw [List.mem_cons]
    by_cases same : name = key record
    · rw [same, Finmap.lookup_insert]
      constructor
      · rintro ⟨⟩
        exact ⟨.inl rfl, rfl⟩
      · rintro ⟨here | later, under⟩
        · rw [here]
        · exact absurd (List.mem_map.mpr ⟨other, later, under⟩) fresh
    · rw [Finmap.lookup_insert_of_ne _ same, represents.entries]
      constructor
      · rintro ⟨listed, under⟩
        exact ⟨.inr listed, under⟩
      · rintro ⟨rfl | listed, under⟩
        · exact absurd under.symm same
        · exact ⟨listed, under⟩

/-- Without its first record a table is the map without its key. -/
theorem Represents.tail {record : ρ} (represents : Represents key (record :: table) map) :
    Represents key table (map.erase (key record)) where
  distinct := (List.nodup_cons.mp represents.distinct).2
  entries name other := by
    obtain ⟨fresh, -⟩ := List.nodup_cons.mp represents.distinct
    by_cases same : name = key record
    · rw [same, Finmap.lookup_erase]
      constructor
      · intro found
        cases found
      · rintro ⟨listed, under⟩
        exact absurd (List.mem_map.mpr ⟨other, listed, under⟩) fresh
    · rw [Finmap.lookup_erase_ne same, represents.entries, List.mem_cons]
      constructor
      · rintro ⟨rfl | listed, under⟩
        · exact absurd under.symm same
        · exact ⟨listed, under⟩
      · rintro ⟨listed, under⟩
        exact ⟨.inr listed, under⟩

/-- Without a record in the middle a table is the map without its key. -/
theorem Represents.remove {front back : List ρ} {record : ρ}
    (represents : Represents key (front ++ record :: back) map) :
    Represents key (front ++ back) (map.erase (key record)) :=
  (represents.perm List.perm_middle).tail

/-- A record behind the others with a new key is one more entry. -/
theorem Represents.push (represents : Represents key table map) {record : ρ}
    (fresh : key record ∉ table.map key) :
    Represents key (table ++ [record]) (map.insert (key record) record) :=
  (represents.cons fresh).perm (List.perm_append_singleton record table).symm

/-- A record in the place of another one of its key is the new entry of the key. -/
theorem Represents.replace {front back : List ρ} {old record : ρ}
    (represents : Represents key (front ++ old :: back) map) (same : key record = key old) :
    Represents key (front ++ record :: back) (map.insert (key record) record) := by
  have removed := represents.remove
  have fresh : key record ∉ (front ++ back).map key := by
    rw [← removed.mem_iff, same]
    exact Finmap.notMem_erase_self
  have stored := (removed.cons fresh).perm List.perm_middle.symm
  have whole : (map.erase (key old)).insert (key record) record =
      map.insert (key record) record := by
    apply Finmap.ext_lookup
    intro name
    by_cases here : name = key record
    · rw [here, Finmap.lookup_insert, Finmap.lookup_insert]
    · rw [Finmap.lookup_insert_of_ne _ here, Finmap.lookup_insert_of_ne _ here,
        Finmap.lookup_erase_ne (same ▸ here)]
  rw [whole] at stored
  exact stored

end HwrunOs.Tables
