/-! Maps from names that keep the order in which the names were first stored. Storing under a
name that is present replaces its value in place. -/

namespace ScriptLang

structure Record (α : Type) where
  entries : List (String × α)
  deriving Inhabited

namespace Record

variable {α β : Type}

def empty : Record α :=
  ⟨[]⟩

def keys (r : Record α) : List String :=
  r.entries.map Prod.fst

def size (r : Record α) : Nat :=
  r.entries.length

def isEmpty (r : Record α) : Bool :=
  r.entries.isEmpty

def get? (r : Record α) (key : String) : Option α :=
  r.entries.lookup key

def contains (r : Record α) (key : String) : Bool :=
  (r.get? key).isSome

/-- Replaces the value under `key`; a record without `key` stays as it is. -/
def update (r : Record α) (key : String) (value : α) : Record α :=
  ⟨r.entries.map fun entry => if entry.1 = key then (key, value) else entry⟩

def insert (r : Record α) (key : String) (value : α) : Record α :=
  if r.contains key then r.update key value else ⟨r.entries ++ [(key, value)]⟩

/-- Stores the pairs one after the other, so the last value of a repeated name wins and the name
keeps its first place. -/
def ofList (pairs : List (String × α)) : Record α :=
  pairs.foldl (fun r pair => r.insert pair.1 pair.2) empty

def ofKeys (names : List String) (value : α) : Record α :=
  ofList (names.map (·, value))

/-! ### Entries -/

theorem mem_entries_of_get? {r : Record α} {key : String} {value : α}
    (h : r.get? key = some value) : (key, value) ∈ r.entries := by
  obtain ⟨front, back, hr, -⟩ := List.lookup_eq_some_iff.mp h
  simp [hr]

theorem get?_isSome_iff {r : Record α} {key : String} :
    (r.get? key).isSome ↔ key ∈ r.keys := by
  simp [get?, keys]

theorem mem_keys_of_get? {r : Record α} {key : String} {value : α}
    (h : r.get? key = some value) : key ∈ r.keys :=
  get?_isSome_iff.mp (by simp [h])

theorem exists_get?_of_mem_keys {r : Record α} {key : String} (h : key ∈ r.keys) :
    ∃ value, r.get? key = some value :=
  Option.isSome_iff_exists.mp (get?_isSome_iff.mpr h)

theorem get?_of_mem_entries {r : Record α} {key : String} {value : α} (distinct : r.keys.Nodup)
    (h : (key, value) ∈ r.entries) : r.get? key = some value := by
  obtain ⟨entries⟩ := r
  induction entries with
  | nil => simp at h
  | cons entry rest ih =>
    obtain ⟨name, other⟩ := entry
    obtain ⟨hfirst, hrest⟩ := List.nodup_cons.mp distinct
    rcases List.mem_cons.mp h with hsame | hmem
    · cases hsame
      simp [get?]
    · have hne : key ≠ name := by
        rintro rfl
        exact hfirst (List.mem_map.mpr ⟨_, hmem, rfl⟩)
      have hlookup : (key == name) = false := by simpa using hne
      simpa [get?, List.lookup_cons, hlookup] using ih hrest hmem

@[simp]
theorem keys_update {r : Record α} {key : String} {value : α} :
    (r.update key value).keys = r.keys := by
  simp only [keys, update, List.map_map]
  refine List.map_congr_left fun entry _ => ?_
  rw [Function.comp_apply]
  split
  · next h => exact h.symm
  · rfl

theorem get?_update_self {r : Record α} {key : String} {value : α} (h : key ∈ r.keys) :
    (r.update key value).get? key = some value := by
  obtain ⟨entries⟩ := r
  induction entries with
  | nil => simp [keys] at h
  | cons entry rest ih =>
    obtain ⟨first, old⟩ := entry
    by_cases hkey : first = key
    · simp [update, get?, hkey]
    · have hrest : key ∈ (Record.mk rest).keys := by simpa [keys, Ne.symm hkey] using h
      have hne : (key == first) = false := by simpa using Ne.symm hkey
      simpa [update, get?, hkey, List.lookup_cons, hne] using ih hrest

theorem get?_update_of_ne {r : Record α} {key name : String} {value : α} (h : name ≠ key) :
    (r.update key value).get? name = r.get? name := by
  obtain ⟨entries⟩ := r
  induction entries with
  | nil => rfl
  | cons entry rest ih =>
    obtain ⟨first, old⟩ := entry
    by_cases hkey : first = key
    · have hne : (name == key) = false := by simpa using h
      simpa [update, get?, hkey, List.lookup_cons, hne] using ih
    · simp only [update, get?, List.map_cons, hkey, if_false, List.lookup_cons] at ih ⊢
      rw [ih]

theorem keys_insert {r : Record α} {key : String} {value : α} :
    (r.insert key value).keys = if key ∈ r.keys then r.keys else r.keys ++ [key] := by
  have hcontains : r.contains key = true ↔ key ∈ r.keys := get?_isSome_iff
  by_cases h : key ∈ r.keys
  · rw [insert, if_pos (hcontains.mpr h), if_pos h, keys_update]
  · rw [insert, if_neg (mt hcontains.mp h), if_neg h]
    simp [keys]

theorem entries_insert_of_notMem {r : Record α} {key : String} {value : α} (h : key ∉ r.keys) :
    (r.insert key value).entries = r.entries ++ [(key, value)] := by
  have hcontains : ¬ r.contains key = true := fun hcontains => h (get?_isSome_iff.mp hcontains)
  rw [insert, if_neg hcontains]

theorem get?_insert_self {r : Record α} {key : String} {value : α} :
    (r.insert key value).get? key = some value := by
  by_cases h : key ∈ r.keys
  · have hcontains : r.contains key = true := get?_isSome_iff.mpr h
    rw [insert, if_pos hcontains]
    exact get?_update_self h
  · have hnone : r.get? key = none :=
      Option.not_isSome_iff_eq_none.mp fun hsome => h (get?_isSome_iff.mp hsome)
    rw [get?] at hnone
    rw [get?, entries_insert_of_notMem h, List.lookup_append, hnone, Option.none_or]
    simp

theorem get?_insert_of_ne {r : Record α} {key name : String} {value : α} (h : name ≠ key) :
    (r.insert key value).get? name = r.get? name := by
  unfold insert
  split
  · exact get?_update_of_ne h
  · have hne : (name == key) = false := by simpa using h
    simp [get?, List.lookup_append, List.lookup_cons, hne]

theorem mem_update {r : Record α} {key : String} {value : α} {entry : String × α}
    (h : entry ∈ (r.update key value).entries) : entry ∈ r.entries ∨ entry = (key, value) := by
  obtain ⟨old, hold, rfl⟩ := List.mem_map.mp h
  split
  · exact .inr rfl
  · exact .inl hold

theorem mem_insert {r : Record α} {key : String} {value : α} {entry : String × α}
    (h : entry ∈ (r.insert key value).entries) : entry ∈ r.entries ∨ entry = (key, value) := by
  unfold insert at h
  split at h
  · exact mem_update h
  · simpa using h

theorem mem_ofList {pairs : List (String × α)} {entry : String × α}
    (h : entry ∈ (ofList pairs).entries) : entry ∈ pairs := by
  have hfold : ∀ r : Record α,
      entry ∈ (pairs.foldl (fun r pair => r.insert pair.1 pair.2) r).entries →
        entry ∈ r.entries ∨ entry ∈ pairs := by
    clear h
    induction pairs with
    | nil => exact fun r h => .inl h
    | cons pair rest ih =>
      intro r h
      rcases ih _ h with h | h
      · rcases mem_insert h with h | rfl
        · exact .inl h
        · exact .inr (by simp)
      · exact .inr (by simp [h])
  simpa [empty] using hfold empty h

theorem entries_ofList {pairs : List (String × α)} (h : (pairs.map Prod.fst).Nodup) :
    (ofList pairs).entries = pairs := by
  have hfold : ∀ r : Record α, (r.keys ++ pairs.map Prod.fst).Nodup →
      (pairs.foldl (fun r pair => r.insert pair.1 pair.2) r).entries = r.entries ++ pairs := by
    clear h
    induction pairs with
    | nil => exact fun r _ => (List.append_nil _).symm
    | cons pair rest ih =>
      intro r hdistinct
      have hnew : pair.1 ∉ r.keys := fun hmem =>
        (List.nodup_append.mp hdistinct).2.2 _ hmem _ List.mem_cons_self rfl
      have hkeys : (r.insert pair.1 pair.2).keys = r.keys ++ [pair.1] := by
        rw [keys_insert, if_neg hnew]
      rw [List.foldl_cons, ih, entries_insert_of_notMem hnew, List.append_assoc,
        List.singleton_append]
      rwa [hkeys, List.append_assoc, List.singleton_append]
  exact hfold empty h

/-! ### Distinct names -/

theorem nodup_keys_insert {r : Record α} (h : r.keys.Nodup) {key : String} {value : α} :
    (r.insert key value).keys.Nodup := by
  rw [keys_insert]
  split
  · exact h
  · next hnew =>
    refine List.nodup_append.mpr ⟨h, by simp, fun name hname other hother => ?_⟩
    rw [List.mem_singleton.mp hother]
    rintro rfl
    exact hnew hname

theorem nodup_keys_ofList {pairs : List (String × α)} : (ofList pairs).keys.Nodup := by
  have hfold : ∀ r : Record α, r.keys.Nodup →
      (pairs.foldl (fun r pair => r.insert pair.1 pair.2) r).keys.Nodup := by
    induction pairs with
    | nil => exact fun _ h => h
    | cons pair rest ih => exact fun r h => ih _ (nodup_keys_insert h)
  exact hfold empty .nil

/-- Each name comes once, where it came first. -/
theorem keys_ofList {pairs : List (String × α)} :
    (ofList pairs).keys = (pairs.map Prod.fst).eraseDups := by
  have hfold : ∀ r : Record α, (pairs.foldl (fun r pair => r.insert pair.1 pair.2) r).keys =
      r.keys ++ ((pairs.map Prod.fst).filter (· ∉ r.keys)).eraseDups := by
    induction pairs with
    | nil => exact fun r => (List.append_nil _).symm
    | cons pair rest ih =>
      intro r
      rw [List.foldl_cons, ih, keys_insert, List.map_cons]
      by_cases h : pair.1 ∈ r.keys
      · rw [if_pos h, List.filter_cons_of_neg (by simpa using h)]
      · have hlater : ∀ name : String, decide (name ∉ r.keys ++ [pair.1]) =
            (!name == pair.1 && decide (name ∉ r.keys)) := by
          intro name
          by_cases hname : name = pair.1 <;> simp [hname]
        rw [if_neg h, List.filter_cons_of_pos (by simpa using h), List.eraseDups_cons,
          List.filter_filter, List.append_assoc, List.singleton_append, funext hlater]
  have hall : (pairs.map Prod.fst).filter (· ∉ (empty : Record α).keys) = pairs.map Prod.fst :=
    List.filter_eq_self.mpr fun name _ => by simp [empty, keys]
  rw [ofList, hfold, hall]
  rfl

theorem keys_ofKeys {names : List String} {value : α} :
    (ofKeys names value).keys = names.eraseDups := by
  have hnames : (names.map (·, value)).map Prod.fst = names := by
    rw [List.map_map]
    exact List.map_id names
  rw [ofKeys, keys_ofList, hnames]

end Record

end ScriptLang
