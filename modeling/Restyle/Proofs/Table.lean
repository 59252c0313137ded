import Restyle.Table

/-!
# Names in tables

Which names and values a table has after it has been changed.
-/

namespace Restyle.Table

variable {α : Type}

theorem get?_eq_none_iff (t : Table α) (name : String) : t.get? name = none ↔ name ∉ t.names := by
  induction t with
  | nil => simp [get?, names]
  | cons entry t ih =>
      obtain ⟨k, v⟩ := entry
      by_cases h : k = name
      · simp [get?, names, h]
      · have h' : name ≠ k := fun e => h e.symm
        simp only [names] at ih
        simp [get?, names, h, h', ih]

theorem names_erase (t : Table α) (name : String) : (t.erase name).names = t.names.erase name := by
  induction t with
  | nil => rfl
  | cons entry t ih =>
      obtain ⟨k, v⟩ := entry
      simp only [names] at ih
      by_cases h : k = name <;> simp [erase, names, h, ih]

theorem mem_names_set (t : Table α) (name : String) (value : α) (other : String) :
    other ∈ (t.set name value).names ↔ other = name ∨ other ∈ t.names := by
  rw [names_set]
  split
  · next hmem =>
      refine ⟨.inr, ?_⟩
      rintro (rfl | h)
      · exact hmem
      · exact h
  · simp [or_comm]

theorem nodup_names_set {t : Table α} (h : t.names.Nodup) (name : String) (value : α) :
    (t.set name value).names.Nodup := by
  rw [names_set]
  split
  · exact h
  · next hname => simpa [List.nodup_append] using ⟨h, fun a ha e => hname (e ▸ ha)⟩

theorem nodup_names_foldl_set (pairs : List (String × α)) {t : Table α} (h : t.names.Nodup) :
    (pairs.foldl (fun t (k, v) => t.set k v) t).names.Nodup := by
  induction pairs generalizing t with
  | nil => exact h
  | cons pair pairs ih =>
      rw [List.foldl_cons]
      exact ih (nodup_names_set h _ _)

/-- The names of a table of pairs are distinct. -/
theorem nodup_names_ofList (pairs : List (String × α)) : (ofList pairs).names.Nodup :=
  nodup_names_foldl_set pairs List.nodup_nil

theorem mem_names_foldl_set (pairs : List (String × α)) (t : Table α) (name : String) :
    name ∈ (pairs.foldl (fun t (k, v) => t.set k v) t).names ↔
      name ∈ t.names ∨ name ∈ pairs.map (·.1) := by
  induction pairs generalizing t with
  | nil => simp
  | cons pair pairs ih =>
      obtain ⟨k, v⟩ := pair
      rw [List.foldl_cons, ih, names_set]
      by_cases h : k ∈ t.names
      · simp only [h, if_true, List.map_cons, List.mem_cons]
        constructor
        · rintro (ht | hp)
          · exact .inl ht
          · exact .inr (.inr hp)
        · rintro (ht | rfl | hp)
          · exact .inl ht
          · exact .inl h
          · exact .inr hp
      · simp [h, or_assoc]

/-- A table of pairs has the names of the pairs. -/
theorem mem_names_ofList (pairs : List (String × α)) (name : String) :
    name ∈ (ofList pairs).names ↔ name ∈ pairs.map (·.1) := by
  unfold ofList
  rw [mem_names_foldl_set]
  simp [names]

@[simp] theorem names_modify (t : Table α) (name : String) (f : α → α) :
    (t.modify name f).names = t.names := by
  unfold modify names
  rw [List.map_map]
  refine List.map_congr_left fun entry _ => ?_
  obtain ⟨k, v⟩ := entry
  by_cases h : k = name <;> simp [h]

theorem get?_modify_of_ne (t : Table α) {name other : String} (f : α → α) (h : name ≠ other) :
    (t.modify name f).get? other = t.get? other := by
  induction t with
  | nil => rfl
  | cons entry t ih =>
      obtain ⟨k, v⟩ := entry
      by_cases hk : k = name
      · subst hk
        simpa [modify, get?, h] using ih
      · by_cases ho : k = other
        · subst ho
          simp [modify, get?, hk]
        · simpa [modify, get?, hk, ho] using ih

theorem get?_modify_self (t : Table α) (name : String) (f : α → α) :
    (t.modify name f).get? name = (t.get? name).map f := by
  induction t with
  | nil => rfl
  | cons entry t ih =>
      obtain ⟨k, v⟩ := entry
      by_cases hk : k = name
      · simp [modify, get?, hk]
      · simpa [modify, get?, hk] using ih

theorem mem_names_of_get? {t : Table α} {name : String} {value : α} (h : t.get? name = some value) :
    name ∈ t.names := by
  refine Classical.byContradiction fun hnot => ?_
  rw [(get?_eq_none_iff t name).mpr hnot] at h
  cases h

theorem exists_get?_of_mem_names {t : Table α} {name : String} (h : name ∈ t.names) :
    ∃ value, t.get? name = some value := by
  cases hget : t.get? name with
  | none => exact absurd h ((get?_eq_none_iff t name).mp hget)
  | some value => exact ⟨value, rfl⟩

/-- Setting a name that is there keeps the names. -/
theorem names_set_of_get? {t : Table α} {name : String} {value : α}
    (h : t.get? name = some value) (other : α) : (t.set name other).names = t.names := by
  rw [names_set, if_pos (mem_names_of_get? h)]

/-! ## Values -/

theorem mem_of_get? {t : Table α} {name : String} {value : α} (h : t.get? name = some value) :
    (name, value) ∈ t := by
  induction t with
  | nil => cases h
  | cons entry t ih =>
      obtain ⟨k, v⟩ := entry
      rw [get?] at h
      by_cases hk : k = name
      · rw [if_pos hk] at h
        cases h
        rw [hk]
        exact List.mem_cons_self
      · rw [if_neg hk] at h
        exact List.mem_cons_of_mem _ (ih h)

theorem get?_map {β : Type} {f : String × α → String × β} (hf : ∀ entry, (f entry).1 = entry.1) (t : Table α)
    (name : String) : get? (t.map f) name = (t.get? name).map fun value => (f (name, value)).2 := by
  induction t with
  | nil => rfl
  | cons entry t ih =>
      obtain ⟨k, value⟩ := entry
      have hk : (f (k, value)).1 = k := hf (k, value)
      rw [List.map_cons, get?, get?, hk]
      split
      · next h =>
          subst h
          rfl
      · exact ih

/-- Under distinct names, every entry is found under its name. -/
theorem get?_of_mem {t : Table α} (hnodup : t.names.Nodup) {name : String} {value : α}
    (h : (name, value) ∈ t) : t.get? name = some value := by
  induction t with
  | nil => cases h
  | cons entry t ih =>
      obtain ⟨k, v⟩ := entry
      have hparts := List.nodup_cons.mp hnodup
      rcases List.mem_cons.mp h with heq | hrest
      · cases heq
        rw [get?, if_pos rfl]
      · have hne : k ≠ name := by
          intro heq
          exact hparts.1 (List.mem_map.mpr ⟨(name, value), hrest, heq.symm⟩)
        rw [get?, if_neg hne]
        exact ih hparts.2 hrest

/-- Under distinct names, permuted tables have the same values. -/
theorem get?_of_perm {t u : Table α} (h : t.Perm u) (hnames : t.names.Nodup) (name : String) :
    t.get? name = u.get? name := by
  cases hget : t.get? name with
  | some value =>
      have hnames' : u.names.Nodup := (h.map _).nodup_iff.mp hnames
      exact (get?_of_mem hnames' (h.mem_iff.mp (mem_of_get? hget))).symm
  | none =>
      rw [get?_eq_none_iff] at hget
      exact ((get?_eq_none_iff _ _).mpr fun hmem => hget ((h.map _).mem_iff.mpr hmem)).symm

/-- A new name goes to the end. -/
theorem set_of_not_mem {t : Table α} {name : String} (h : name ∉ t.names) (value : α) :
    t.set name value = t ++ [(name, value)] := by
  induction t with
  | nil => rfl
  | cons entry t ih =>
      obtain ⟨k, v⟩ := entry
      have hne : k ≠ name := by
        rintro rfl
        exact h List.mem_cons_self
      rw [set, if_neg hne, ih fun hmem => h (List.mem_cons_of_mem _ hmem)]
      rfl

theorem foldl_set_of_nodup {t u : Table α} (h : (t ++ u).names.Nodup) :
    u.foldl (fun t (k, v) => t.set k v) t = t ++ u := by
  induction u generalizing t with
  | nil => simp
  | cons entry u ih =>
      obtain ⟨k, v⟩ := entry
      have hk : k ∉ t.names := by
        intro hmem
        rw [names, List.map_append, List.nodup_append] at h
        exact h.2.2 k hmem k List.mem_cons_self rfl
      have hstep : (match (k, v) with | (k, v) => t.set k v) = t ++ [(k, v)] := set_of_not_mem hk v
      rw [List.foldl_cons, hstep, ih (by simpa using h), List.append_assoc, List.singleton_append]

/-- A list of pairs with distinct names is a table as it is. -/
theorem ofList_of_nodup {t : Table α} (h : t.names.Nodup) : ofList t = t :=
  foldl_set_of_nodup (t := []) h

theorem get?_erase_of_ne (t : Table α) {name other : String} (h : name ≠ other) :
    (t.erase name).get? other = t.get? other := by
  induction t with
  | nil => rfl
  | cons entry t ih =>
      obtain ⟨k, v⟩ := entry
      rw [erase]
      split
      · next hk => rw [get?, if_neg (hk ▸ h)]
      · rw [get?, get?, ih]

theorem get?_foldl_set {u : Table α} (hu : u.names.Nodup) (t : Table α) (name : String) :
    (u.foldl (fun t (k, v) => t.set k v) t).get? name = (u.get? name).or (t.get? name) := by
  induction u generalizing t with
  | nil => rfl
  | cons entry u ih =>
      obtain ⟨k, v⟩ := entry
      obtain ⟨hk, hrest⟩ := List.nodup_cons.mp hu
      rw [List.foldl_cons, ih hrest, get?]
      by_cases heq : k = name
      · subst heq
        rw [(get?_eq_none_iff u k).mpr hk, if_pos rfl, get?_set_self]
        rfl
      · rw [if_neg heq, get?_set_of_ne _ _ heq]

/-- Of two tables in one, the second has the last word. -/
theorem get?_ofList_append {t u : Table α} (ht : t.names.Nodup) (hu : u.names.Nodup) (name : String) :
    (ofList (t ++ u)).get? name = (u.get? name).or (t.get? name) := by
  unfold ofList
  rw [List.foldl_append, get?_foldl_set hu, get?_foldl_set ht]
  simp [get?]

/-- Every value of a table has a property. -/
def All (P : α → Prop) (t : Table α) : Prop :=
  ∀ entry ∈ t, P entry.2

variable {P : α → Prop}

theorem All.of_get? {t : Table α} (h : t.All P) {name : String} {value : α}
    (hget : t.get? name = some value) : P value :=
  h (name, value) (mem_of_get? hget)

theorem All.set {t : Table α} (h : t.All P) (name : String) {value : α} (hvalue : P value) :
    (t.set name value).All P := by
  induction t with
  | nil =>
      intro entry hmem
      rw [List.mem_singleton.mp hmem]
      exact hvalue
  | cons first t ih =>
      obtain ⟨k, v⟩ := first
      have hrest : All P t := fun entry hmem => h entry (List.mem_cons_of_mem _ hmem)
      intro entry hmem
      rw [Table.set] at hmem
      by_cases hk : k = name
      · rw [if_pos hk] at hmem
        rcases List.mem_cons.mp hmem with rfl | hmem
        · exact hvalue
        · exact hrest entry hmem
      · rw [if_neg hk] at hmem
        rcases List.mem_cons.mp hmem with rfl | hmem
        · exact h (k, v) List.mem_cons_self
        · exact ih hrest entry hmem

theorem All.modify {t : Table α} (h : t.All P) (name : String) {f : α → α}
    (hf : ∀ value, P value → P (f value)) : (t.modify name f).All P := by
  intro entry hmem
  obtain ⟨⟨k, v⟩, hold, rfl⟩ := List.mem_map.mp hmem
  have hv : P v := h (k, v) hold
  dsimp only
  split
  · exact hf v hv
  · exact hv

end Restyle.Table
