/-!
# Maps from names

A finite map from names, as a list of entries. The order of the entries is the order in which the
names were first inserted; looking up a name does not depend on it.
-/

namespace ProtoScript

/-- A finite map from names. -/
structure NameMap (α : Type) where
  entries : List (String × α)

namespace NameMap

variable {α : Type}

instance : Inhabited (NameMap α) := ⟨⟨[]⟩⟩

/-- The map without names. -/
def empty : NameMap α := ⟨[]⟩

/-- The value of the first entry with the given name. -/
def find? (name : String) : List (String × α) → Option α
  | [] => none
  | (key, a) :: entries => if key = name then some a else find? name entries

/-- Replaces the value of the first entry with the given name, or adds an entry at the end. -/
def set (name : String) (a : α) : List (String × α) → List (String × α)
  | [] => [(name, a)]
  | (key, b) :: entries => if key = name then (name, a) :: entries else (key, b) :: set name a entries

/-- The value of a name. -/
def get? (m : NameMap α) (name : String) : Option α :=
  find? name m.entries

/-- Gives a name a value, whether it had one before or not. -/
def insert (m : NameMap α) (name : String) (a : α) : NameMap α :=
  ⟨set name a m.entries⟩

/-- Gives several names their values in another map. -/
def insertAll (m : NameMap α) (others : NameMap α) : NameMap α :=
  others.entries.foldl (fun m entry => m.insert entry.1 entry.2) m

/-- The names, in order. -/
def names (m : NameMap α) : List String :=
  m.entries.map (·.1)

/-- Applies a function to every value. -/
def map (m : NameMap α) (f : α → α) : NameMap α :=
  ⟨m.entries.map fun entry => (entry.1, f entry.2)⟩

/-- What is found for a name is the value of an entry with this name. -/
theorem mem_of_find? {name : String} {a : α} {entries : List (String × α)}
    (hfind : find? name entries = some a) : (name, a) ∈ entries := by
  induction entries with
  | nil => cases hfind
  | cons entry entries ih =>
    obtain ⟨key, b⟩ := entry
    by_cases hkey : key = name
    · simp only [find?, if_pos hkey, Option.some.injEq] at hfind
      simp [hkey, hfind]
    · simp only [find?, if_neg hkey] at hfind
      exact List.mem_cons_of_mem _ (ih hfind)

/-- Where every name comes once, each entry is found. -/
theorem find?_eq_some_iff {name : String} {a : α} {entries : List (String × α)}
    (hnames : (entries.map (·.1)).Nodup) : find? name entries = some a ↔ (name, a) ∈ entries := by
  refine ⟨mem_of_find?, fun hmem => ?_⟩
  induction entries with
  | nil => cases hmem
  | cons entry entries ih =>
    obtain ⟨key, b⟩ := entry
    obtain ⟨hkey, hrest⟩ := List.nodup_cons.mp hnames
    rcases List.mem_cons.mp hmem with heq | hmem
    · cases heq
      exact if_pos rfl
    · have hne : key ≠ name := by
        rintro rfl
        exact hkey (List.mem_map.mpr ⟨_, hmem, rfl⟩)
      rw [find?, if_neg hne]
      exact ih hrest hmem

/-- Where every name comes once, the order of the entries does not matter for looking it up. -/
theorem get?_eq_of_perm {m m' : NameMap α} (hnames : m.names.Nodup) (hperm : m.entries.Perm m'.entries)
    (name : String) : m'.get? name = m.get? name := by
  have hnames' : m'.names.Nodup := (hperm.map _).nodup_iff.mp hnames
  ext a
  rw [get?, get?, find?_eq_some_iff hnames', find?_eq_some_iff hnames, hperm.mem_iff]

/-- What is done to every value depends on the values that are there. -/
theorem map_congr {m : NameMap α} {f g : α → α}
    (hfg : ∀ entry ∈ m.entries, f entry.2 = g entry.2) : m.map f = m.map g := by
  unfold map
  congr 1
  apply List.map_congr_left
  intro entry hentry
  rw [hfg entry hentry]

/-- Setting a name changes what is found for it, and nothing else. -/
theorem find?_set (name other : String) (a : α) (entries : List (String × α)) :
    find? other (set name a entries) = if name = other then some a else find? other entries := by
  induction entries with
  | nil => simp [set, find?]
  | cons entry entries ih =>
    obtain ⟨key, b⟩ := entry
    by_cases hkey : key = name
    · by_cases h : name = other <;> simp [set, find?, hkey, h]
    · by_cases h : name = other
      · subst h; simp [set, find?, hkey, ih]
      · simp [set, find?, hkey, h, ih]

/-- After a name got a value, it has that value and every other name is as before. -/
theorem get?_insert (m : NameMap α) (name other : String) (a : α) :
    (m.insert name a).get? other = if name = other then some a else m.get? other :=
  find?_set name other a m.entries

/-- The map without names has no value for any. -/
@[simp] theorem get?_empty (name : String) : (empty : NameMap α).get? name = none := rfl

end NameMap

end ProtoScript
