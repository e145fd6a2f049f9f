/-!
# Catalogs

A *catalog* is a finite map from names to entries. It is kept as the list of its
pairs with strictly increasing names, so two catalogs with the same look-ups are
equal (`Catalog.ext_get?`), and listing one gives its names in order.
-/

namespace Dialogue

/-- A finite map from names to entries, listed with strictly increasing names. -/
structure Catalog (α : Type) where
  /-- The pairs, names strictly increasing. -/
  entries : List (String × α)
  /-- No name comes twice, and the names are in order. -/
  sorted : entries.Pairwise fun a b => a.1 < b.1
  deriving DecidableEq

namespace Catalog

variable {α : Type}

/-- The entry of `name` in a list of pairs, the first one that has it. -/
def find? (name : String) : List (String × α) → Option α
  | [] => none
  | (n, a) :: rest => if n = name then some a else find? name rest

/-- Puts `a` under `name`, in place of what was there. -/
def put (name : String) (a : α) : List (String × α) → List (String × α)
  | [] => [(name, a)]
  | (n, b) :: rest =>
    if name < n then (name, a) :: (n, b) :: rest
    else if name = n then (name, a) :: rest
    else (n, b) :: put name a rest

/-- A pair of a list with one more is the new one or an old one. -/
theorem mem_put {name : String} {a : α} {p : String × α} {l : List (String × α)}
    (h : p ∈ put name a l) : p = (name, a) ∨ p ∈ l := by
  induction l with
  | nil => simpa [put] using h
  | cons q l ih =>
    obtain ⟨n, b⟩ := q
    unfold put at h
    split at h
    · simpa using h
    · split at h
      · rcases List.mem_cons.1 h with h | h
        · exact .inl h
        · exact .inr (List.mem_cons_of_mem _ h)
      · rcases List.mem_cons.1 h with h | h
        · exact .inr (h ▸ List.mem_cons_self)
        · exact (ih h).imp_right (List.mem_cons_of_mem _)

/-- A list stays in order when a pair is put into it. -/
theorem sorted_put (name : String) (a : α) {l : List (String × α)}
    (h : l.Pairwise fun a b => a.1 < b.1) :
    (put name a l).Pairwise fun a b => a.1 < b.1 := by
  induction l with
  | nil => simp [put]
  | cons q l ih =>
    obtain ⟨n, b⟩ := q
    obtain ⟨hn, hl⟩ := List.pairwise_cons.1 h
    unfold put
    split
    · rename_i hlt
      refine List.pairwise_cons.2 ⟨fun p hp => ?_, h⟩
      rcases List.mem_cons.1 hp with rfl | hp
      · exact hlt
      · exact String.lt_trans hlt (hn p hp)
    · rename_i hlt
      split
      · rename_i heq
        subst heq
        exact List.pairwise_cons.2 ⟨hn, hl⟩
      · rename_i hne
        refine List.pairwise_cons.2 ⟨fun p hp => ?_, ih hl⟩
        rcases mem_put hp with rfl | hp
        · exact (Std.lt_trichotomy n name).resolve_right
            fun h' => h'.elim (hne ·.symm) hlt
        · exact hn p hp

/-- What was put under a name is found under it, and all else as before. -/
theorem find?_put (name : String) (a : α) (x : String) (l : List (String × α)) :
    find? x (put name a l) = if name = x then some a else find? x l := by
  induction l with
  | nil => simp [put, find?]
  | cons q l ih =>
    obtain ⟨n, b⟩ := q
    unfold put
    split
    · simp [find?]
    · split
      · rename_i heq
        subst heq
        simp only [find?]
        split <;> rfl
      · rename_i hne
        simp only [find?, ih]
        split
        · rename_i h
          rw [if_neg (by rintro rfl; exact hne h.symm)]
        · rfl

/-- A name before all others is not in the list. -/
theorem find?_eq_none_of_lt {x : String} {l : List (String × α)}
    (h : ∀ p ∈ l, x < p.1) : find? x l = none := by
  induction l with
  | nil => rfl
  | cons q l ih =>
    simp only [find?]
    rw [if_neg, ih fun p hp => h p (List.mem_cons_of_mem _ hp)]
    rintro rfl
    exact String.lt_irrefl _ (h q List.mem_cons_self)

/-- In a list in order, what is found is what is in it. -/
theorem find?_eq_some_iff_mem {x : String} {a : α} {l : List (String × α)}
    (h : l.Pairwise fun a b => a.1 < b.1) : find? x l = some a ↔ (x, a) ∈ l := by
  induction l with
  | nil => simp [find?]
  | cons q l ih =>
    obtain ⟨n, b⟩ := q
    obtain ⟨hn, hl⟩ := List.pairwise_cons.1 h
    simp only [find?]
    split
    · rename_i heq
      subst heq
      simp only [Option.some.injEq, List.mem_cons, Prod.mk.injEq, true_and]
      constructor
      · rintro rfl
        exact .inl rfl
      · rintro (rfl | hm)
        · rfl
        · exact absurd (hn _ hm) (String.lt_irrefl _)
    · rename_i hne
      rw [ih hl]
      simp [List.mem_cons, Prod.mk.injEq, Ne.symm hne]

/-- Sorted lists of pairs with the same look-ups are equal. -/
theorem eq_of_find?_eq {l m : List (String × α)} (hl : l.Pairwise fun a b => a.1 < b.1)
    (hm : m.Pairwise fun a b => a.1 < b.1) (h : ∀ x, find? x l = find? x m) : l = m := by
  induction l generalizing m with
  | nil =>
    cases m with
    | nil => rfl
    | cons q m => simpa [find?] using h q.1
  | cons p l ih =>
    obtain ⟨n, a⟩ := p
    obtain ⟨hn, hl'⟩ := List.pairwise_cons.1 hl
    cases m with
    | nil => simpa [find?] using h n
    | cons q m =>
      obtain ⟨n', a'⟩ := q
      obtain ⟨hn', hm'⟩ := List.pairwise_cons.1 hm
      -- The smaller one of two different first names would be missing in the other list.
      have hnn : n = n' := by
        rcases Std.lt_trichotomy n n' with hlt | heq | hlt
        · have := h n
          rw [find?_eq_none_of_lt (l := (n', a') :: m)] at this
          · simp [find?] at this
          · intro p hp
            rcases List.mem_cons.1 hp with rfl | hp
            · exact hlt
            · exact String.lt_trans hlt (hn' p hp)
        · exact heq
        · have := h n'
          rw [find?_eq_none_of_lt (l := (n, a) :: l)] at this
          · simp [find?] at this
          · intro p hp
            rcases List.mem_cons.1 hp with rfl | hp
            · exact hlt
            · exact String.lt_trans hlt (hn p hp)
      subst hnn
      have ha : a = a' := by simpa [find?] using h n
      subst ha
      congr 1
      refine ih hl' hm' fun x => ?_
      by_cases hx : n = x
      · subst hx
        rw [find?_eq_none_of_lt hn, find?_eq_none_of_lt hn']
      · simpa [find?, hx] using h x

/-- The catalog of no names. -/
def empty : Catalog α := ⟨[], .nil⟩

/-- The catalog without entries. -/
instance : EmptyCollection (Catalog α) := ⟨empty⟩

/-- Some catalog, the one without entries. -/
instance : Inhabited (Catalog α) := ⟨empty⟩

/-- The entry of `name`. -/
def get? (c : Catalog α) (name : String) : Option α := find? name c.entries

/-- Is there an entry of `name`? -/
def contains (c : Catalog α) (name : String) : Bool := (c.get? name).isSome

/-- Puts `a` under `name`, in place of what was there. -/
def insert (c : Catalog α) (name : String) (a : α) : Catalog α :=
  ⟨put name a c.entries, sorted_put name a c.sorted⟩

/-- Drops the entry of `name`. -/
def erase (c : Catalog α) (name : String) : Catalog α :=
  ⟨c.entries.filter (·.1 ≠ name), c.sorted.filter _⟩

/-- Changes every entry, whatever its name. -/
def map {β : Type} (f : α → β) (c : Catalog α) : Catalog β :=
  ⟨c.entries.map fun p => (p.1, f p.2), c.sorted.map _ fun _ _ h => h⟩

/-- The number of names. -/
def size (c : Catalog α) : Nat := c.entries.length

/-- The names, in order. -/
def names (c : Catalog α) : List String := c.entries.map (·.1)

/-- The catalog of a list of pairs; of two pairs with one name the later counts. -/
def ofList (l : List (String × α)) : Catalog α := l.foldl (fun c p => c.insert p.1 p.2) ∅

/-- Nothing is found in a catalog without entries. -/
@[simp] theorem get?_empty (x : String) : (∅ : Catalog α).get? x = none := rfl

/-- A catalog without entries contains no name. -/
@[simp] theorem contains_empty (x : String) : (∅ : Catalog α).contains x = false := rfl

/-- What was inserted under a name is found under it, and all else as before. -/
theorem get?_insert (c : Catalog α) (name : String) (a : α) (x : String) :
    (c.insert name a).get? x = if name = x then some a else c.get? x :=
  find?_put name a x c.entries

/-- What was erased is not found any more, and all else as before. -/
theorem get?_erase (c : Catalog α) (name x : String) :
    (c.erase name).get? x = if name = x then none else c.get? x := by
  simp only [get?, erase]
  induction c.entries with
  | nil => simp [find?]
  | cons p l ih =>
    obtain ⟨n, a⟩ := p
    by_cases hn : n = name
    · subst hn
      simp only [ne_eq, not_true_eq_false, decide_false, Bool.false_eq_true, not_false_eq_true,
        List.filter_cons_of_neg, ih, find?]
      split <;> rfl
    · simp only [ne_eq, hn, not_false_eq_true, decide_true, List.filter_cons_of_pos, find?, ih]
      by_cases hx : n = x
      · subst hx
        simp [Ne.symm hn]
      · simp [hx]

/-- Mapping the entries maps what is found. -/
theorem get?_map {β : Type} (f : α → β) (c : Catalog α) (x : String) :
    (c.map f).get? x = (c.get? x).map f := by
  simp only [get?, map]
  induction c.entries with
  | nil => rfl
  | cons p l ih =>
    simp only [List.map_cons, find?, ih]
    split <;> rfl

/-- What is found is an entry of the catalog. -/
theorem get?_eq_some_iff_mem {c : Catalog α} {x : String} {a : α} :
    c.get? x = some a ↔ (x, a) ∈ c.entries :=
  find?_eq_some_iff_mem c.sorted

/-- The names of a catalog are those under which something is found. -/
theorem mem_names {c : Catalog α} {x : String} : x ∈ c.names ↔ ∃ a, c.get? x = some a := by
  rw [names, List.mem_map]
  constructor
  · rintro ⟨⟨_, a⟩, hmem, rfl⟩
    exact ⟨a, get?_eq_some_iff_mem.2 hmem⟩
  · rintro ⟨a, hget⟩
    exact ⟨(x, a), get?_eq_some_iff_mem.1 hget, rfl⟩

/-- Inserting adds the name. -/
theorem mem_names_insert {c : Catalog α} {name x : String} {a : α} :
    x ∈ (c.insert name a).names ↔ x = name ∨ x ∈ c.names := by
  simp only [mem_names, get?_insert]
  by_cases hx : name = x
  · simp [hx]
  · simp [hx, Ne.symm hx]

/-- Catalogs with the same look-ups are equal. -/
theorem ext_get? {c d : Catalog α} (h : ∀ x, c.get? x = d.get? x) : c = d := by
  obtain ⟨l, hl⟩ := c
  obtain ⟨m, hm⟩ := d
  congr
  exact eq_of_find?_eq hl hm h

end Catalog

end Dialogue
