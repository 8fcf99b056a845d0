import ExperienceCurves.Text.Word

/-!
Dictionaries: values under keys, each key once, in the order in which the keys came. Storing a value
replaces the one under its key, and `find?_store` says that it touches no other.
-/
namespace ExperienceCurves

structure Dictionary (κ α : Type) where
  entries : List (κ × α)
  distinct : (entries.map Prod.fst).Nodup

namespace Dictionary

variable {κ α : Type} [DecidableEq κ]

def empty : Dictionary κ α := ⟨[], .nil⟩

/-- Put a value under a key, at its place if the key is there already. -/
def put (key : κ) (value : α) : List (κ × α) → List (κ × α)
  | [] => [(key, value)]
  | entry :: rest =>
      if entry.1 = key then (key, value) :: rest else entry :: put key value rest

theorem keys_put (key : κ) (value : α) (entries : List (κ × α)) :
    (put key value entries).map Prod.fst =
      if key ∈ entries.map Prod.fst then entries.map Prod.fst
      else entries.map Prod.fst ++ [key] := by
  induction entries with
  | nil => rfl
  | cons entry rest ih =>
    unfold put
    by_cases h : entry.1 = key
    · simp [h]
    · have hmem : key ∈ entry.1 :: rest.map Prod.fst ↔ key ∈ rest.map Prod.fst := by
        simp [Ne.symm h]
      rw [if_neg h, List.map_cons, ih, List.map_cons]
      by_cases hrest : key ∈ rest.map Prod.fst
      · rw [if_pos hrest, if_pos (hmem.2 hrest)]
      · rw [if_neg hrest, if_neg (mt hmem.1 hrest), List.cons_append]

theorem distinct_put (key : κ) (value : α) {entries : List (κ × α)}
    (h : (entries.map Prod.fst).Nodup) : ((put key value entries).map Prod.fst).Nodup := by
  rw [keys_put]
  split
  · exact h
  · next hnew =>
    refine List.nodup_append.2 ⟨h, List.nodup_cons.2 ⟨List.not_mem_nil, .nil⟩, ?_⟩
    intro a ha b hb
    obtain rfl := List.mem_singleton.1 hb
    exact fun heq => hnew (heq ▸ ha)

def store (d : Dictionary κ α) (key : κ) (value : α) : Dictionary κ α :=
  ⟨put key value d.entries, distinct_put key value d.distinct⟩

def find? (d : Dictionary κ α) (key : κ) : Option α :=
  (d.entries.find? fun entry => entry.1 = key).map Prod.snd

def values (d : Dictionary κ α) : List α := d.entries.map Prod.snd

def size (d : Dictionary κ α) : Nat := d.entries.length

theorem find?_put (key key' : κ) (value : α) (entries : List (κ × α)) :
    ((put key value entries).find? fun entry => entry.1 = key').map Prod.snd =
      if key' = key then some value
      else (entries.find? fun entry => entry.1 = key').map Prod.snd := by
  induction entries with
  | nil => by_cases h : key' = key <;> simp [put, h, eq_comm]
  | cons entry rest ih =>
    unfold put
    by_cases hentry : entry.1 = key
    · rw [if_pos hentry]
      by_cases h : key' = key
      · simp [h]
      · simp [h, Ne.symm h, hentry]
    · rw [if_neg hentry, List.find?_cons, List.find?_cons]
      by_cases h : entry.1 = key'
      · have hother : key' ≠ key := fun heq => hentry (h.trans heq)
        simp [h, hother]
      · simpa [h] using ih

theorem find?_store (d : Dictionary κ α) (key key' : κ) (value : α) :
    (d.store key value).find? key' = if key' = key then some value else d.find? key' :=
  find?_put key key' value d.entries

theorem find?_eq_some_iff {d : Dictionary κ α} {key : κ} {value : α} :
    d.find? key = some value ↔ (key, value) ∈ d.entries := by
  obtain ⟨entries, hdistinct⟩ := d
  unfold find?
  dsimp only
  induction entries with
  | nil => simp
  | cons entry rest ih =>
    obtain ⟨hnew, hrest⟩ := List.nodup_cons.1 hdistinct
    rw [List.find?_cons, List.mem_cons]
    by_cases h : entry.1 = key
    · have hout : (key, value) ∉ rest := fun hmem => hnew (h ▸ List.mem_map_of_mem hmem)
      simp [h, hout, Prod.ext_iff, eq_comm]
    · have hother : (key, value) ≠ entry := fun heq => h (heq ▸ rfl)
      simp [h, hother, ih hrest]

/-- The values are those that are found under some key. -/
theorem mem_values_iff {d : Dictionary κ α} {value : α} :
    value ∈ d.values ↔ ∃ key, d.find? key = some value := by
  simp [values, find?_eq_some_iff]

/-- What is found after values were stored one after the other was there before or is one of them. -/
theorem mem_of_find?_foldl {key : α → κ} {values : List α} {d : Dictionary κ α} {k : κ} {a : α}
    (h : (values.foldl (fun d b => d.store (key b) b) d).find? k = some a) :
    a ∈ values ∧ key a = k ∨ d.find? k = some a := by
  induction values generalizing d with
  | nil => exact Or.inr h
  | cons b rest ih =>
    rcases ih h with ⟨hmem, hkey⟩ | h
    · exact Or.inl ⟨List.mem_cons_of_mem _ hmem, hkey⟩
    · rw [find?_store] at h
      split at h
      · next hsame =>
        obtain rfl := Option.some.inj h
        exact Or.inl ⟨List.mem_cons_self, hsame.symm⟩
      · exact Or.inr h

/-- Every value is stored under the key that it names itself. -/
def IsKeyedBy (d : Dictionary κ α) (key : α → κ) : Prop := ∀ k a, d.find? k = some a → key a = k

namespace IsKeyedBy

variable {d : Dictionary κ α} {key : α → κ}

theorem empty (key : α → κ) : (Dictionary.empty : Dictionary κ α).IsKeyedBy key := nofun

theorem store (h : d.IsKeyedBy key) (a : α) : (d.store (key a) a).IsKeyedBy key := by
  intro k b hb
  rw [find?_store] at hb
  split at hb
  · next hsame => rw [← Option.some.inj hb, hsame]
  · exact h k b hb

theorem mem_values_iff (h : d.IsKeyedBy key) {a : α} :
    a ∈ d.values ↔ d.find? (key a) = some a := by
  rw [Dictionary.mem_values_iff]
  constructor
  · rintro ⟨k, hk⟩
    rwa [h k a hk]
  · exact fun hfound => ⟨key a, hfound⟩

/-- No two values name the same key. -/
theorem nodup (h : d.IsKeyedBy key) : (d.values.map key).Nodup := by
  have hkeys : d.values.map key = d.entries.map Prod.fst := by
    rw [values, List.map_map]
    refine List.map_congr_left fun entry hentry => ?_
    exact h entry.1 entry.2 (find?_eq_some_iff.2 hentry)
  rw [hkeys]
  exact d.distinct

end IsKeyedBy

end Dictionary

end ExperienceCurves
