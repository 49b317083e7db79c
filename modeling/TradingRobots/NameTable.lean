/-
Tables from names to values, kept in the order of the names' characters. The order is part of the type, so two tables
with the same entries are equal, whatever was inserted first.

`find?_insert`, `find?_erase`: what looking up gives after an insertion and after a removal.
-/

namespace TradingRobots

/-- values under names, in ascending order of the names, each name once -/
structure NameTable (α : Type) where
  entries : List (String × α)
  ascending : entries.Pairwise fun a b => a.1 < b.1

namespace NameTable

variable {α β : Type}

instance [DecidableEq α] : DecidableEq (NameTable α) := fun a b =>
  if h : a.entries = b.entries then
    isTrue (by cases a; cases b; cases h; rfl)
  else isFalse fun e => h (by rw [e])

def empty : NameTable α := ⟨[], .nil⟩

instance : Inhabited (NameTable α) := ⟨empty⟩

def names (t : NameTable α) : List String :=
  t.entries.map Prod.fst

def size (t : NameTable α) : Nat :=
  t.entries.length

def find? (t : NameTable α) (name : String) : Option α :=
  t.entries.lookup name

def contains (t : NameTable α) (name : String) : Bool :=
  (t.find? name).isSome

/-- puts an entry in its place, over an entry of the same name -/
def place (name : String) (value : α) : List (String × α) → List (String × α)
  | [] => [(name, value)]
  | (n, v) :: rest =>
    if name < n then (name, value) :: (n, v) :: rest
    else if n < name then (n, v) :: place name value rest
    else (name, value) :: rest

theorem eq_of_not_lt {a b : String} (h : ¬a < b) (h' : ¬b < a) : a = b :=
  String.le_antisymm (String.not_lt.1 h') (String.not_lt.1 h)

theorem mem_place {name : String} {value : α} {entries : List (String × α)} {e : String × α}
    (h : e ∈ place name value entries) : e = (name, value) ∨ e ∈ entries := by
  induction entries with
  | nil => simpa [place] using h
  | cons x rest ih =>
    obtain ⟨n, v⟩ := x
    simp only [place] at h
    split at h
    · simpa using h
    · split at h
      · rcases List.mem_cons.1 h with h | h
        · exact .inr (by simp [h])
        · rcases ih h with h | h
          · exact .inl h
          · exact .inr (by simp [h])
      · rcases List.mem_cons.1 h with h | h
        · exact .inl h
        · exact .inr (by simp [h])

theorem ascending_place (name : String) (value : α) {entries : List (String × α)}
    (h : entries.Pairwise fun a b => a.1 < b.1) :
    (place name value entries).Pairwise fun a b => a.1 < b.1 := by
  induction entries with
  | nil => simp [place]
  | cons x rest ih =>
    obtain ⟨n, v⟩ := x
    rw [List.pairwise_cons] at h
    simp only [place]
    split
    next lt =>
      refine List.pairwise_cons.2 ⟨fun e he => ?_, List.pairwise_cons.2 h⟩
      rcases List.mem_cons.1 he with he | he
      · rw [he]; exact lt
      · exact String.lt_trans lt (h.1 e he)
    next ge =>
      split
      next lt =>
        refine List.pairwise_cons.2 ⟨fun e he => ?_, ih h.2⟩
        rcases mem_place he with he | he
        · rw [he]; exact lt
        · exact h.1 e he
      next le =>
        have same : name = n := eq_of_not_lt ge le
        exact List.pairwise_cons.2 ⟨fun e he => by rw [same]; exact h.1 e he, h.2⟩

def insert (t : NameTable α) (name : String) (value : α) : NameTable α :=
  ⟨place name value t.entries, ascending_place name value t.ascending⟩

def erase (t : NameTable α) (name : String) : NameTable α :=
  ⟨t.entries.filter fun e => e.1 ≠ name, t.ascending.filter _⟩

/-- later pairs win over earlier ones of the same name -/
def ofList (pairs : List (String × α)) : NameTable α :=
  pairs.foldl (fun t e => t.insert e.1 e.2) empty

def map (f : α → β) (t : NameTable α) : NameTable β :=
  ⟨t.entries.map fun e => (e.1, f e.2), by
    rw [List.pairwise_map]
    exact t.ascending⟩

theorem lookup_cons (k : String) (w : α) (rest : List (String × α)) (other : String) :
    ((k, w) :: rest).lookup other = if other = k then some w else rest.lookup other := by
  by_cases e : other = k
  · simp [e]
  · have : (other == k) = false := by simpa using e
    simp [List.lookup_cons, this, e]

theorem lookup_place (name : String) (value : α) (entries : List (String × α)) (other : String)
    (h : entries.Pairwise fun a b => a.1 < b.1) :
    (place name value entries).lookup other = if other = name then some value else entries.lookup other := by
  induction entries with
  | nil => simp [place, lookup_cons]
  | cons x rest ih =>
    obtain ⟨n, v⟩ := x
    rw [List.pairwise_cons] at h
    simp only [place]
    split
    next lt => rw [lookup_cons]
    next ge =>
      split
      next lt =>
        rw [lookup_cons, ih h.2, lookup_cons]
        by_cases e : other = n
        · subst e
          have : ¬other = name := fun e => String.lt_irrefl _ (e ▸ lt)
          simp [this]
        · simp [e]
      next le =>
        have same : name = n := eq_of_not_lt ge le
        subst same
        rw [lookup_cons, lookup_cons]
        by_cases e : other = name <;> simp [e]

theorem find?_insert (t : NameTable α) (name : String) (value : α) (other : String) :
    (t.insert name value).find? other = if other = name then some value else t.find? other :=
  lookup_place name value t.entries other t.ascending

theorem lookup_filter (entries : List (String × α)) (name other : String) :
    (entries.filter fun e => e.1 ≠ name).lookup other = if other = name then none else entries.lookup other := by
  induction entries with
  | nil => simp
  | cons x rest ih =>
    obtain ⟨n, v⟩ := x
    rw [lookup_cons]
    by_cases e : n = name
    · rw [List.filter_cons_of_neg (by simpa using e), ih]
      by_cases o : other = name <;> simp [o, e]
    · rw [List.filter_cons_of_pos (by simpa using e), lookup_cons, ih]
      by_cases o : other = n
      · simp [o, e]
      · simp [o]

theorem find?_erase (t : NameTable α) (name other : String) :
    (t.erase name).find? other = if other = name then none else t.find? other :=
  lookup_filter t.entries name other

end NameTable

end TradingRobots
