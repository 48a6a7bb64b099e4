import Chronicle.SortedMap.Basic
/-!
What the look-ups of a sorted map see.

Every operation is described by `get?` of its result, and a map is determined by its look-ups
(`SortedMap.ext_get?`), so nothing else has to be known of how the pairs are stored.  The list of
the pairs comes in where order matters: `get?_eq_some_iff` leads from one to the other.  For sets
`contains` plays the part of `get?`.
-/

namespace Chronicle

namespace SortedMap

variable {κ α β : Type} [Ord κ]

/-! ### The list of pairs -/

theorem lookup_eq_some_of_mem [Std.TransOrd κ] {key : κ} {value : α} :
    ∀ {l : List (κ × α)}, l.Pairwise (fun a b => compare a.1 b.1 = .lt) → (key, value) ∈ l →
      lookup key l = some value
  | [], _, h => by simp at h
  | (k, v) :: rest, hs, h => by
    have hk := List.pairwise_cons.1 hs
    rcases List.mem_cons.1 h with heq | h
    · obtain ⟨rfl, rfl⟩ := Prod.mk.inj heq
      simp [lookup, Std.ReflCmp.compare_self]
    · have hlt : compare k key = .lt := hk.1 _ h
      have hgt : compare key k = .gt := Std.OrientedCmp.gt_of_lt hlt
      simp [lookup, hgt, lookup_eq_some_of_mem hk.2 h]

/-- The keys strictly increase. -/
theorem keys_sorted (m : SortedMap κ α) : m.keys.Pairwise fun a b => compare a b = .lt :=
  List.pairwise_map.2 m.sorted

/-- No key is there twice. -/
theorem nodup_keys [Std.ReflOrd κ] (m : SortedMap κ α) : m.keys.Nodup := by
  refine m.keys_sorted.imp ?_
  intro a b hlt heq
  subst heq
  simp [Std.ReflCmp.compare_self] at hlt

@[simp] theorem get?_empty (key : κ) : (empty : SortedMap κ α).get? key = none := rfl

theorem contains_eq_false_iff {m : SortedMap κ α} {key : κ} :
    m.contains key = false ↔ m.get? key = none := by
  simp [contains]

variable [Std.LawfulEqOrd κ]

theorem mem_of_lookup_eq_some {key : κ} {value : α} :
    ∀ {l : List (κ × α)}, lookup key l = some value → (key, value) ∈ l
  | [], h => by simp [lookup] at h
  | (k, v) :: rest, h => by
    simp only [lookup] at h
    split at h
    · next heq =>
      obtain rfl := Std.LawfulEqOrd.eq_of_compare heq
      simp_all
    · exact List.mem_cons_of_mem _ (mem_of_lookup_eq_some h)

variable [Std.TransOrd κ]

theorem get?_eq_some_iff {m : SortedMap κ α} {key : κ} {value : α} :
    m.get? key = some value ↔ (key, value) ∈ m.toList :=
  ⟨mem_of_lookup_eq_some, lookup_eq_some_of_mem m.sorted⟩

theorem mem_keys_iff {m : SortedMap κ α} {key : κ} :
    key ∈ m.keys ↔ ∃ value, m.get? key = some value := by
  simp [keys, get?_eq_some_iff]

theorem contains_iff {m : SortedMap κ α} {key : κ} : m.contains key = true ↔ key ∈ m.keys := by
  simp [contains, mem_keys_iff, Option.isSome_iff_exists]

/-- Two sorted lists with the same members are the same list. -/
theorem eq_of_mem_iff : ∀ {l l' : List (κ × α)},
    l.Pairwise (fun a b => compare a.1 b.1 = .lt) →
      l'.Pairwise (fun a b => compare a.1 b.1 = .lt) → (∀ pair, pair ∈ l ↔ pair ∈ l') → l = l'
  | [], [], _, _, _ => rfl
  | [], b :: l', _, _, h => by simpa using h b
  | a :: l, [], _, _, h => by simpa using h a
  | a :: l, b :: l', hl, hl', h => by
    have ha := List.pairwise_cons.1 hl
    have hb := List.pairwise_cons.1 hl'
    have irrefl (x : κ × α) : ¬ compare x.1 x.1 = .lt := by simp [Std.ReflCmp.compare_self]
    have hab : a = b := by
      rcases List.mem_cons.1 ((h a).1 List.mem_cons_self) with rfl | ha'
      · rfl
      · rcases List.mem_cons.1 ((h b).2 List.mem_cons_self) with rfl | hb'
        · rfl
        · exact absurd (Std.TransCmp.lt_trans (ha.1 b hb') (hb.1 a ha')) (irrefl a)
    subst hab
    congr 1
    refine eq_of_mem_iff ha.2 hb.2 fun pair => ⟨fun hp => ?_, fun hp => ?_⟩
    · rcases List.mem_cons.1 ((h pair).1 (List.mem_cons_of_mem _ hp)) with rfl | hp'
      · exact absurd (ha.1 pair hp) (irrefl pair)
      · exact hp'
    · rcases List.mem_cons.1 ((h pair).2 (List.mem_cons_of_mem _ hp)) with rfl | hp'
      · exact absurd (hb.1 pair hp) (irrefl pair)
      · exact hp'

/-- A map is determined by its look-ups. -/
theorem ext_get? {m m' : SortedMap κ α} (h : ∀ key, m.get? key = m'.get? key) : m = m' := by
  have hlist : m.toList = m'.toList :=
    eq_of_mem_iff m.sorted m'.sorted fun (key, value) => by
      rw [← get?_eq_some_iff, ← get?_eq_some_iff, h]
  cases m; cases m'; cases hlist; rfl

/-! ### Look-ups after an operation -/

section

omit [Std.TransOrd κ]

theorem lookup_insertPair [DecidableEq κ] (key key' : κ) (value : α) :
    ∀ l : List (κ × α),
      lookup key' (insertPair key value l) = if key' = key then some value else lookup key' l
  | [] => by simp [insertPair, lookup, Std.LawfulEqCmp.compare_eq_iff_eq]
  | (k, v) :: rest => by
    simp only [insertPair]
    split
    · simp [lookup, Std.LawfulEqCmp.compare_eq_iff_eq]
    · next heq =>
      obtain rfl := Std.LawfulEqOrd.eq_of_compare heq
      by_cases h : key' = key <;> simp [lookup, Std.LawfulEqCmp.compare_eq_iff_eq, h]
    · next hgt =>
      have hne : k ≠ key := by
        rintro rfl
        simp [Std.ReflCmp.compare_self] at hgt
      by_cases h : key' = k
      · subst h
        simp [lookup, hne]
      · simp [lookup, Std.LawfulEqCmp.compare_eq_iff_eq, h, lookup_insertPair key key' value rest]

theorem get?_mapValues (m : SortedMap κ α) (f : κ → α → β) (key : κ) :
    (m.mapValues f).get? key = (m.get? key).map (f key) := by
  have h (l : List (κ × α)) :
      lookup key (l.map fun pair => (pair.1, f pair.1 pair.2)) = (lookup key l).map (f key) := by
    induction l with
    | nil => rfl
    | cons pair rest ih =>
      obtain ⟨k, v⟩ := pair
      by_cases hk : key = k
      · subst hk
        simp [lookup]
      · simp [lookup, Std.LawfulEqCmp.compare_eq_iff_eq, hk, ih]
  exact h m.toList

theorem contains_mapValues (m : SortedMap κ α) (f : κ → α → β) (key : κ) :
    (m.mapValues f).contains key = m.contains key := by
  simp [contains, get?_mapValues]

theorem get?_modify [DecidableEq κ] (m : SortedMap κ α) (key key' : κ) (f : α → α) :
    (m.modify key f).get? key' = if key' = key then (m.get? key').map f else m.get? key' := by
  rw [modify, get?_mapValues]
  by_cases h : key' = key
  · simp [h]
  · simp [Std.LawfulEqCmp.compare_eq_iff_eq, h, Ne.symm h]

end

theorem get?_insert [DecidableEq κ] (m : SortedMap κ α) (key key' : κ) (value : α) :
    (m.insert key value).get? key' = if key' = key then some value else m.get? key' :=
  lookup_insertPair key key' value m.toList

theorem insert_of_get? [DecidableEq κ] {m : SortedMap κ α} {key : κ} {value : α}
    (h : m.get? key = some value) : m.insert key value = m := by
  refine ext_get? fun key' => ?_
  rw [get?_insert]
  split
  · next heq => rw [heq, h]
  · rfl

theorem get?_filter (m : SortedMap κ α) (p : κ → α → Bool) (key : κ) :
    (m.filter p).get? key = (m.get? key).filter (p key) := by
  ext value
  simp [get?_eq_some_iff, filter, Option.filter_eq_some_iff]

theorem get?_erase [DecidableEq κ] (m : SortedMap κ α) (key key' : κ) :
    (m.erase key).get? key' = if key' = key then none else m.get? key' := by
  rw [erase, get?_filter]
  by_cases h : key' = key
  · subst h
    simp [Std.ReflCmp.compare_self]
  · have hne : (compare key key' != .eq) = true := by
      simpa [Std.LawfulEqCmp.compare_eq_iff_eq] using Ne.symm h
    cases m.get? key' <;> simp [h, hne]

theorem mapValues_of_forall {m : SortedMap κ α} {f : κ → α → α}
    (h : ∀ key value, m.get? key = some value → f key value = value) : m.mapValues f = m := by
  refine ext_get? fun key => ?_
  rw [get?_mapValues]
  cases hm : m.get? key with
  | none => rfl
  | some value => exact congrArg some (h key value hm)

/-- Two maps with the same keys are walked alike. -/
theorem mapValues_eq_of_contains {α' γ : Type} {m : SortedMap κ α} {m' : SortedMap κ α'}
    {f : κ → α → γ} {f' : κ → α' → γ} (h : ∀ key, m'.contains key = m.contains key)
    (hf : ∀ key a a', m'.get? key = some a' → f key a = f' key a') :
    m.mapValues f = m'.mapValues f' := by
  refine ext_get? fun key => ?_
  have hkey := h key
  rw [contains, contains] at hkey
  rw [get?_mapValues, get?_mapValues]
  cases hm : m.get? key with
  | none => cases hm' : m'.get? key <;> simp_all
  | some a =>
    cases hm' : m'.get? key with
    | none => simp [hm, hm'] at hkey
    | some a' => exact congrArg some (hf key a a' hm')

theorem mapValues_mapValues {γ : Type} (m : SortedMap κ α) (f : κ → α → β) (g : κ → β → γ) :
    (m.mapValues f).mapValues g = m.mapValues fun key value => g key (f key value) := by
  refine ext_get? fun key => ?_
  simp [get?_mapValues, Function.comp_def]

theorem contains_insert [DecidableEq κ] (m : SortedMap κ α) (key key' : κ) (value : α) :
    (m.insert key value).contains key' = (decide (key' = key) || m.contains key') := by
  by_cases h : key' = key <;> simp [contains, get?_insert, h]

theorem contains_erase [DecidableEq κ] (m : SortedMap κ α) (key key' : κ) :
    (m.erase key).contains key' = (!decide (key' = key) && m.contains key') := by
  by_cases h : key' = key <;> simp [contains, get?_erase, h]

theorem erase_of_contains_eq_false [DecidableEq κ] {m : SortedMap κ α} {key : κ}
    (h : m.contains key = false) : m.erase key = m := by
  refine ext_get? fun key' => ?_
  rw [get?_erase]
  split
  · next heq => rw [heq, contains_eq_false_iff.mp h]
  · rfl

/-! ### Maps from lists -/

theorem get?_foldl_insert [DecidableEq κ] (pairs : List (κ × α)) (m : SortedMap κ α) (key : κ) :
    (pairs.foldl (fun m pair => m.insert pair.1 pair.2) m).get? key =
      ((pairs.reverse.find? (·.1 = key)).map (·.2)).or (m.get? key) := by
  induction pairs generalizing m with
  | nil => simp
  | cons pair rest ih =>
    rw [List.foldl_cons, ih, get?_insert]
    by_cases h : pair.1 = key
    · cases hf : rest.reverse.find? (·.1 = key) <;> simp [hf, h]
    · cases hf : rest.reverse.find? (·.1 = key) <;> simp [hf, h, Ne.symm h]

/-- Of two pairs with one key the later counts. -/
theorem get?_ofList [DecidableEq κ] (pairs : List (κ × α)) (key : κ) :
    (ofList pairs).get? key = (pairs.reverse.find? (·.1 = key)).map (·.2) := by
  simp [ofList, get?_foldl_insert]

/-- A map comes back from its pairs. -/
theorem ofList_toList [DecidableEq κ] (m : SortedMap κ α) : ofList m.toList = m := by
  refine ext_get? fun key => ?_
  rw [get?_ofList]
  ext value
  rw [get?_eq_some_iff]
  constructor
  · intro h
    obtain ⟨pair, hfind, rfl⟩ := Option.map_eq_some_iff.1 h
    have hkey : pair.1 = key := by simpa using List.find?_some hfind
    have hmem : pair ∈ m.toList := by simpa using List.mem_of_find?_eq_some hfind
    rw [← hkey]
    exact hmem
  · intro h
    cases hfind : m.toList.reverse.find? (·.1 = key) with
    | none =>
      have hne := List.find?_eq_none.1 hfind (key, value) (by simpa using h)
      simp at hne
    | some pair =>
      have hkey : pair.1 = key := by simpa using List.find?_some hfind
      have hmem : (key, pair.2) ∈ m.toList := by
        rw [← hkey]
        simpa using List.mem_of_find?_eq_some hfind
      have hsame := (get?_eq_some_iff.2 hmem).symm.trans (get?_eq_some_iff.2 h)
      simpa using hsame

end SortedMap

namespace SortedSet

variable {κ : Type} [Ord κ]

@[simp] theorem contains_empty (x : κ) : (empty : SortedSet κ).contains x = false := rfl

variable [Std.LawfulEqOrd κ] [Std.TransOrd κ]

theorem contains_iff {s : SortedSet κ} {x : κ} : s.contains x = true ↔ x ∈ s.toList :=
  SortedMap.contains_iff

/-- A set is determined by its members. -/
theorem ext_contains {s s' : SortedSet κ} (h : ∀ x, s.contains x = s'.contains x) : s = s' := by
  have hmap : s.map = s'.map := SortedMap.ext_get? fun x => by
    have hx : (s.map.get? x).isSome = (s'.map.get? x).isSome := h x
    cases hs : s.map.get? x <;> cases hs' : s'.map.get? x <;> simp_all
  cases s; cases s'; cases hmap; rfl

theorem contains_insert [DecidableEq κ] (s : SortedSet κ) (x y : κ) :
    (s.insert x).contains y = (decide (y = x) || s.contains y) :=
  SortedMap.contains_insert s.map x y ()

theorem contains_erase [DecidableEq κ] (s : SortedSet κ) (x y : κ) :
    (s.erase x).contains y = (!decide (y = x) && s.contains y) :=
  SortedMap.contains_erase s.map x y

theorem contains_insertAll [DecidableEq κ] (s : SortedSet κ) (xs : List κ) (y : κ) :
    (s.insertAll xs).contains y = (decide (y ∈ xs) || s.contains y) := by
  induction xs generalizing s with
  | nil => simp [insertAll]
  | cons x xs ih =>
    rw [insertAll, List.foldl_cons, ← insertAll, ih, contains_insert]
    by_cases h : y = x <;> by_cases h' : y ∈ xs <;> simp [h, h']

theorem contains_ofList [DecidableEq κ] (xs : List κ) (y : κ) :
    (ofList xs).contains y = decide (y ∈ xs) := by
  simp [ofList, contains_insertAll]

/-- A set comes back from its members. -/
theorem ofList_toList [DecidableEq κ] (s : SortedSet κ) : ofList s.toList = s := by
  refine ext_contains fun x => ?_
  rw [contains_ofList, Bool.eq_iff_iff, decide_eq_true_eq, contains_iff]

end SortedSet

end Chronicle
