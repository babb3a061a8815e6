import ClassDiagram.OrderedMap

/-! # Laws of ordered maps and sets

A map without repeated keys is given by its look-up and the order of its keys.  Every write keeps
the keys distinct.

* `OrderedMap.mem_entries_iff`: the entries are what look-up finds;
* `OrderedMap.ext_get?`, `OrderedMap.perm_of_get?`: maps that are found equal;
* `OrderedMap.ofList_entries`, `OrderedSet.ofList_items`: lists without repetitions are kept;
* `OrderedSet.items_ofList`, `OrderedMap.get?_ofList`: each item where it first comes up, and each
  key with its last value;
* `OrderedMap.get?_alterAll`, `OrderedMap.keys_alterAll`: what many changes in a row come to;
* `OrderedMap.extend_ofList`: what was collected in parts is put together.
-/

namespace ClassDiagram

/-- A new item may go to the end of a list of distinct ones. -/
theorem nodup_snoc {α : Type} {xs : List α} {a : α} (h : xs.Nodup) (ha : a ∉ xs) :
    (xs ++ [a]).Nodup :=
  (List.perm_append_singleton a xs).nodup_iff.2 (List.nodup_cons.2 ⟨ha, h⟩)

namespace OrderedMap

variable {κ ν : Type} [DecidableEq κ]

/-! ## Distinct keys -/

theorem nodup_alter {m : OrderedMap κ ν} (h : m.keys.Nodup) (k : κ) (fresh : ν) (change : ν → ν) :
    (m.alter k fresh change).keys.Nodup := by
  rw [keys_alter]
  by_cases hk : k ∈ m.keys
  · rwa [if_pos hk]
  · rw [if_neg hk]
    exact nodup_snoc h hk

/-- The old keys stay in front. -/
theorem keys_prefix_alter (m : OrderedMap κ ν) (k : κ) (fresh : ν) (change : ν → ν) :
    m.keys <+: (m.alter k fresh change).keys := by
  rw [keys_alter]
  split
  · exact List.prefix_refl _
  · exact List.prefix_append _ _

theorem nodup_extend {m : OrderedMap κ ν} (h : m.keys.Nodup) (other : OrderedMap κ ν) :
    (m.extend other).keys.Nodup := by
  rw [extend]
  generalize other.entries = es
  induction es generalizing m with
  | nil => exact h
  | cons e es ih => exact ih (nodup_alter h _ _ _)

theorem nodup_ofList (es : List (κ × ν)) : (ofList es).keys.Nodup :=
  nodup_extend (m := empty) .nil ⟨es⟩

/-! ## Look-up -/

theorem find_eq_none_iff {k : κ} {es : List (κ × ν)} :
    find k es = none ↔ k ∉ es.map Prod.fst := by
  induction es with
  | nil => simp [find]
  | cons e es ih =>
    obtain ⟨k', v⟩ := e
    by_cases hk : k' = k
    · simp [find, hk]
    · simp [find, hk, ih, Ne.symm hk]

theorem get?_eq_none_iff {m : OrderedMap κ ν} {k : κ} : m.get? k = none ↔ k ∉ m.keys :=
  find_eq_none_iff

theorem mem_keys_of_get? {m : OrderedMap κ ν} {k : κ} {v : ν} (h : m.get? k = some v) :
    k ∈ m.keys := by
  by_cases hk : k ∈ m.keys
  · exact hk
  · rw [get?_eq_none_iff.2 hk] at h
    cases h

theorem mem_of_find {k : κ} {v : ν} {es : List (κ × ν)} (h : find k es = some v) : (k, v) ∈ es := by
  induction es with
  | nil => cases h
  | cons e es ih =>
    obtain ⟨k', v'⟩ := e
    by_cases hk : k' = k
    · simp only [find, hk, if_true] at h
      cases h
      simp [hk]
    · simp only [find, hk, if_false] at h
      exact List.mem_cons_of_mem _ (ih h)

theorem find_of_mem {k : κ} {v : ν} {es : List (κ × ν)} (hd : (es.map Prod.fst).Nodup)
    (h : (k, v) ∈ es) : find k es = some v := by
  induction es with
  | nil => cases h
  | cons e es ih =>
    obtain ⟨k', v'⟩ := e
    obtain ⟨hnot, hd⟩ := List.nodup_cons.1 hd
    rcases List.mem_cons.1 h with h | h
    · cases h
      simp [find]
    · have hk : k' ≠ k := by
        rintro rfl
        exact hnot (List.mem_map.2 ⟨_, h, rfl⟩)
      simp [find, hk, ih hd h]

/-- Of distinct keys, the entries are what look-up finds. -/
theorem mem_entries_iff {m : OrderedMap κ ν} (hd : m.keys.Nodup) {k : κ} {v : ν} :
    (k, v) ∈ m.entries ↔ m.get? k = some v :=
  ⟨find_of_mem hd, mem_of_find⟩

omit [DecidableEq κ] in
theorem nodup_entries {m : OrderedMap κ ν} (hd : m.keys.Nodup) : m.entries.Nodup := by
  refine List.Pairwise.imp ?_ (List.pairwise_map.1 hd)
  rintro a b hab rfl
  exact hab rfl

/-- Maps in which the same is found hold the same entries. -/
theorem perm_of_get? {m m' : OrderedMap κ ν} (hd : m.keys.Nodup) (hd' : m'.keys.Nodup)
    (h : ∀ k, m.get? k = m'.get? k) : m.entries.Perm m'.entries := by
  rw [List.perm_ext_iff_of_nodup (nodup_entries hd) (nodup_entries hd')]
  rintro ⟨k, v⟩
  rw [mem_entries_iff hd, mem_entries_iff hd', h k]

/-- Maps in which the same is found in the same order are the same. -/
theorem ext_get? {m m' : OrderedMap κ ν} (hd : m.keys.Nodup) (hk : m.keys = m'.keys)
    (h : ∀ k, m.get? k = m'.get? k) : m = m' := by
  have key : ∀ es es' : List (κ × ν), (es.map Prod.fst).Nodup → es.map Prod.fst = es'.map Prod.fst →
      (∀ k, find k es = find k es') → es = es' := by
    intro es
    induction es with
    | nil =>
      intro es' _ hk _
      exact (List.map_eq_nil_iff.1 hk.symm).symm
    | cons e es ih =>
      intro es' hd hk h
      cases es' with
      | nil => cases hk
      | cons e' es' =>
        obtain ⟨k, v⟩ := e
        obtain ⟨k', v'⟩ := e'
        simp only [List.map_cons, List.cons.injEq] at hk
        obtain ⟨rfl, hk⟩ := hk
        obtain ⟨hnot, hd⟩ := List.nodup_cons.1 hd
        have hv := h k
        simp only [find, if_true, Option.some.injEq] at hv
        subst hv
        have hrest : ∀ j, find j es = find j es' := by
          intro j
          by_cases hj : k = j
          · subst hj
            rw [find_eq_none_iff.2 hnot, find_eq_none_iff.2 (hk ▸ hnot)]
          · have hj' := h j
            simpa only [find, hj, if_false] using hj'
        rw [ih es' hd hk hrest]
  obtain ⟨es⟩ := m
  obtain ⟨es'⟩ := m'
  rw [key es es' hd hk h]

theorem get?_modify (m : OrderedMap κ ν) (name k : κ) (change : ν → ν) :
    (m.modify name change).get? k
      = (m.get? k).map fun v => if k = name then change v else v := by
  obtain ⟨es⟩ := m
  show find k (es.map fun e => if e.1 = name then (e.1, change e.2) else e) = (find k es).map _
  induction es with
  | nil => rfl
  | cons e es ih =>
    obtain ⟨k', v⟩ := e
    by_cases hk : k' = k
    · subst hk
      by_cases hname : k' = name
      · simp [find, hname]
      · simp [find, hname]
    · by_cases hname : k' = name
      · subst hname
        simp [find, hk, ih]
      · simp [find, hk, hname, ih]

theorem keys_modify (m : OrderedMap κ ν) (name : κ) (change : ν → ν) :
    (m.modify name change).keys = m.keys := by
  rw [keys, keys, modify, List.map_map]
  congr 1
  funext e
  by_cases hname : e.1 = name
  · simp [hname]
  · simp [hname]

/-! ## Lists of entries -/

theorem entries_foldl_insert {m : OrderedMap κ ν} {es : List (κ × ν)}
    (hd : (m.keys ++ es.map Prod.fst).Nodup) :
    (es.foldl (fun m e => m.insert e.1 e.2) m).entries = m.entries ++ es := by
  induction es generalizing m with
  | nil => simp
  | cons e es ih =>
    obtain ⟨k, v⟩ := e
    have hnew : k ∉ m.keys := by
      intro hk
      exact (List.nodup_append.1 hd).2.2 k hk k (by simp) rfl
    have hinsert : (m.insert k v).entries = m.entries ++ [(k, v)] := by
      have key : ∀ es' : List (κ × ν), k ∉ es'.map Prod.fst →
          alterEntries k v (fun _ => v) es' = es' ++ [(k, v)] := by
        intro es' hes
        induction es' with
        | nil => rfl
        | cons e' es' ih' =>
          simp only [List.map_cons, List.mem_cons, not_or] at hes
          simp [alterEntries, Ne.symm hes.1, ih' hes.2]
      exact key _ hnew
    have hkeys : (m.insert k v).keys = m.keys ++ [k] := by
      rw [keys_insert, if_neg hnew]
    rw [List.foldl_cons, ih, hinsert, List.append_assoc, List.singleton_append]
    rw [hkeys, List.append_assoc]
    exact hd

/-- New keys come behind the old ones, in the order in which they first come up. -/
theorem keys_foldl_insert (m : OrderedMap κ ν) (es : List (κ × ν)) :
    (es.foldl (fun m e => m.insert e.1 e.2) m).keys
      = ((OrderedSet.mk m.keys).insertAll (es.map Prod.fst)).items := by
  induction es generalizing m with
  | nil => rfl
  | cons e es ih =>
    have hinsert : OrderedSet.mk (m.insert e.1 e.2).keys = (OrderedSet.mk m.keys).insert e.1 := by
      rw [keys_insert, OrderedSet.insert]
      by_cases he : e.1 ∈ m.keys
      · rw [if_pos he, if_pos he]
      · rw [if_neg he, if_neg he]
    rw [List.foldl_cons, ih, hinsert]
    rfl

/-- The keys of a list of entries, in the order in which they first come up. -/
theorem keys_ofList (es : List (κ × ν)) :
    (ofList es).keys = (OrderedSet.ofList (es.map Prod.fst)).items :=
  keys_foldl_insert empty es

/-- A list of entries with distinct keys is the map of its entries. -/
theorem ofList_entries {m : OrderedMap κ ν} (hd : m.keys.Nodup) : ofList m.entries = m := by
  obtain ⟨es⟩ := m
  have hkeys : ((empty : OrderedMap κ ν).keys ++ es.map Prod.fst).Nodup := by
    simpa [empty, keys] using hd
  have h := entries_foldl_insert hkeys
  show es.foldl (fun m e => m.insert e.1 e.2) empty = _
  generalize es.foldl (fun m e => m.insert e.1 e.2) empty = result at h
  obtain ⟨es'⟩ := result
  exact congrArg OrderedMap.mk h

theorem extend_empty {m : OrderedMap κ ν} (hd : m.keys.Nodup) : empty.extend m = m :=
  ofList_entries hd

end OrderedMap

namespace OrderedSet

variable {α : Type} [DecidableEq α]

theorem mem_insertAll (s : OrderedSet α) (items : List α) (b : α) :
    b ∈ (s.insertAll items).items ↔ b ∈ s.items ∨ b ∈ items := by
  induction items generalizing s with
  | nil => simp [insertAll]
  | cons a items ih =>
    have h := ih (s.insert a)
    rw [mem_insert] at h
    rw [List.mem_cons, ← or_assoc]
    exact h

theorem nodup_insert {s : OrderedSet α} (h : s.items.Nodup) (a : α) : (s.insert a).items.Nodup := by
  rw [insert]
  by_cases ha : a ∈ s.items
  · rwa [if_pos ha]
  · rw [if_neg ha]
    exact nodup_snoc h ha

theorem nodup_insertAll {s : OrderedSet α} (h : s.items.Nodup) (items : List α) :
    (s.insertAll items).items.Nodup := by
  induction items generalizing s with
  | nil => exact h
  | cons a items ih => exact ih (nodup_insert h a)

theorem nodup_ofList (items : List α) : (ofList items).items.Nodup :=
  nodup_insertAll (s := empty) .nil items

theorem mem_ofList {items : List α} {a : α} : a ∈ (ofList items).items ↔ a ∈ items := by
  rw [ofList, mem_insertAll]
  simp [empty]

theorem insertAll_append (s : OrderedSet α) (xs ys : List α) :
    s.insertAll (xs ++ ys) = (s.insertAll xs).insertAll ys :=
  List.foldl_append

theorem insert_of_mem {s : OrderedSet α} {a : α} (h : a ∈ s.items) : s.insert a = s := by
  rw [insert, if_pos h]

/-- Items that are there already change nothing. -/
theorem insertAll_of_subset {s : OrderedSet α} {xs : List α} (h : ∀ a ∈ xs, a ∈ s.items) :
    s.insertAll xs = s := by
  induction xs with
  | nil => rfl
  | cons a xs ih =>
    obtain ⟨ha, hxs⟩ := List.forall_mem_cons.1 h
    show (s.insert a).insertAll xs = s
    rw [insert_of_mem ha]
    exact ih hxs

/-- A list without repetitions is the set of its items. -/
theorem insertAll_of_nodup {s : OrderedSet α} {xs : List α} (h : (s.items ++ xs).Nodup) :
    (s.insertAll xs).items = s.items ++ xs := by
  induction xs generalizing s with
  | nil => simp [insertAll]
  | cons a xs ih =>
    have hnew : a ∉ s.items := by
      intro ha
      exact (List.nodup_append.1 h).2.2 a ha a (by simp) rfl
    have hinsert : s.insert a = ⟨s.items ++ [a]⟩ := by simp [insert, hnew]
    have hrest := ih (s := s.insert a) (by rw [hinsert]; simpa using h)
    rw [hinsert] at hrest
    show ((s.insert a).insertAll xs).items = _
    rw [hinsert, hrest, List.append_assoc, List.singleton_append]

theorem ofList_items {s : OrderedSet α} (h : s.items.Nodup) : ofList s.items = s := by
  obtain ⟨xs⟩ := s
  have hnodup : ((empty : OrderedSet α).items ++ xs).Nodup := by simpa [empty] using h
  have hitems := insertAll_of_nodup hnodup
  rw [ofList]
  generalize empty.insertAll xs = result at hitems
  obtain ⟨ys⟩ := result
  exact congrArg OrderedSet.mk hitems

/-- New items come behind the old ones, each where it first comes up. -/
theorem items_insertAll (s : OrderedSet α) (xs : List α) :
    (s.insertAll xs).items = s.items ++ (xs.removeAll s.items).eraseDups := by
  induction xs generalizing s with
  | nil => simp [insertAll, List.removeAll]
  | cons a xs ih =>
    show ((s.insert a).insertAll xs).items = _
    rw [ih]
    by_cases ha : a ∈ s.items
    · rw [insert_of_mem ha]
      simp [List.removeAll, ha]
    · have hrest : xs.removeAll (s.items ++ [a])
          = (xs.removeAll s.items).filter fun b => !b == a := by
        rw [List.removeAll, List.removeAll, List.filter_filter]
        refine List.filter_congr fun b _ => ?_
        by_cases hb : b = a <;> simp [hb]
      have hfirst : (a :: xs).removeAll s.items = a :: xs.removeAll s.items := by
        simp [List.removeAll, ha]
      have hinsert : (s.insert a).items = s.items ++ [a] := by simp [insert, ha]
      rw [hinsert, hrest, hfirst, List.eraseDups_cons, List.append_assoc, List.singleton_append]

/-- The old items stay in front. -/
theorem items_prefix_insertAll (s : OrderedSet α) (xs : List α) :
    s.items <+: (s.insertAll xs).items := by
  rw [items_insertAll]
  exact List.prefix_append _ _

theorem insertAll_insert (s t : OrderedSet α) (a : α) :
    s.insertAll (t.insert a).items = (s.insertAll t.items).insert a := by
  by_cases ha : a ∈ t.items
  · have hmem : a ∈ (s.insertAll t.items).items := (s.mem_insertAll t.items a).2 (Or.inr ha)
    rw [insert_of_mem ha, insert_of_mem hmem]
  · have hitems : (t.insert a).items = t.items ++ [a] := by simp [insert, ha]
    rw [hitems, insertAll_append]
    rfl

/-- A set that is inserted item by item leaves the same as the lists that it was made of. -/
theorem insertAll_insertAll (s t : OrderedSet α) (xs : List α) :
    s.insertAll (t.insertAll xs).items = (s.insertAll t.items).insertAll xs := by
  induction xs generalizing t with
  | nil => rfl
  | cons a xs ih =>
    show s.insertAll ((t.insert a).insertAll xs).items
      = ((s.insertAll t.items).insert a).insertAll xs
    rw [ih, insertAll_insert]

theorem insertAll_ofList (s : OrderedSet α) (xs : List α) :
    s.insertAll (ofList xs).items = s.insertAll xs :=
  insertAll_insertAll s empty xs

theorem ofList_append (xs ys : List α) : ofList (xs ++ ys) = (ofList xs).insertAll ys :=
  insertAll_append empty xs ys

/-- The set of a list holds what is left of it without repetitions. -/
theorem items_ofList (xs : List α) : (ofList xs).items = xs.eraseDups := by
  have hall : xs.removeAll [] = xs := List.filter_eq_self.2 fun _ _ => rfl
  rw [ofList, items_insertAll]
  exact congrArg List.eraseDups hall

end OrderedSet

namespace OrderedMap

variable {κ ν : Type} [DecidableEq κ]

/-! ## Last values -/

def lastValue (es : List (κ × ν)) (k : κ) : Option ν :=
  ((es.filter (·.1 = k)).getLast?).map Prod.snd

theorem lastValue_cons (e : κ × ν) (es : List (κ × ν)) (k : κ) :
    lastValue (e :: es) k = (lastValue es k).or (if e.1 = k then some e.2 else none) := by
  by_cases h : e.1 = k
  · simp only [lastValue, h, decide_true, List.filter_cons_of_pos, List.getLast?_cons, if_true,
      Option.map_some]
    cases (es.filter (·.1 = k)).getLast? <;> rfl
  · simp [lastValue, h]

theorem lastValue_append (es fs : List (κ × ν)) (k : κ) :
    lastValue (es ++ fs) k = (lastValue fs k).or (lastValue es k) := by
  rw [lastValue, List.filter_append, List.getLast?_append, lastValue, lastValue]
  cases (fs.filter (·.1 = k)).getLast? <;> rfl

/-- Of values written one after another the last one is kept. -/
theorem get?_foldl_insert (m : OrderedMap κ ν) (es : List (κ × ν)) (k : κ) :
    (es.foldl (fun m e => m.insert e.1 e.2) m).get? k = (lastValue es k).or (m.get? k) := by
  induction es generalizing m with
  | nil => rfl
  | cons e es ih =>
    rw [List.foldl_cons, ih, get?_insert, lastValue_cons, Option.or_assoc]
    by_cases h : e.1 = k
    · simp [h]
    · simp [h, Ne.symm h]

theorem get?_ofList (es : List (κ × ν)) (k : κ) : (ofList es).get? k = lastValue es k := by
  rw [ofList, get?_foldl_insert]
  exact Option.or_none

/-! ## Many changes -/

section

variable {α : Type} (key : α → κ) (initial : κ → ν) (change : α → ν → ν)

/-- Change the values of the keys of some items in turn, a new key from its initial value. -/
def alterAll (m : OrderedMap κ ν) (xs : List α) : OrderedMap κ ν :=
  xs.foldl (fun m x => m.alter (key x) (change x (initial (key x))) (change x)) m

theorem alterAll_append (m : OrderedMap κ ν) (xs ys : List α) :
    m.alterAll key initial change (xs ++ ys)
      = (m.alterAll key initial change xs).alterAll key initial change ys :=
  List.foldl_append

/-- A key has undergone the changes of its own items. -/
theorem get?_alterAll (m : OrderedMap κ ν) (xs : List α) (k : κ) :
    (m.alterAll key initial change xs).get? k
      = if k ∈ xs.map key then
          some ((xs.filter (key · = k)).foldl (fun v x => change x v) ((m.get? k).getD (initial k)))
        else m.get? k := by
  induction xs generalizing m with
  | nil => rfl
  | cons x xs ih =>
    show ((m.alter _ _ _).alterAll key initial change xs).get? k = _
    rw [ih, get?_alter]
    by_cases hx : key x = k
    · subst hx
      have hvalue : (m.get? (key x)).elim (change x (initial (key x))) (change x)
          = change x ((m.get? (key x)).getD (initial (key x))) := by
        cases m.get? (key x) <;> rfl
      by_cases hmem : key x ∈ xs.map key
      · simp [hmem, hvalue]
      · have hnone : xs.filter (key · = key x) = [] := by
          rw [List.filter_eq_nil_iff]
          intro y hy hkey
          exact hmem (List.mem_map.2 ⟨y, hy, by simpa using hkey⟩)
        simp [hmem, hnone, hvalue]
    · simp [hx, Ne.symm hx]

/-- The new keys come behind the old ones, in the order in which they come up. -/
theorem keys_alterAll (m : OrderedMap κ ν) (xs : List α) :
    (m.alterAll key initial change xs).keys
      = ((OrderedSet.mk m.keys).insertAll (xs.map key)).items := by
  induction xs generalizing m with
  | nil => rfl
  | cons x xs ih =>
    show ((m.alter _ _ _).alterAll key initial change xs).keys = _
    rw [ih, keys_alter]
    have hinsert : OrderedSet.mk (if key x ∈ m.keys then m.keys else m.keys ++ [key x])
        = (OrderedSet.mk m.keys).insert (key x) := by
      by_cases hx : key x ∈ m.keys
      · simp [OrderedSet.insert, hx]
      · simp [OrderedSet.insert, hx]
    rw [hinsert]
    rfl

end

/-! ## Tables -/

def tabulate (keys : List κ) (f : κ → ν) : OrderedMap κ ν :=
  ⟨keys.map fun k => (k, f k)⟩

omit [DecidableEq κ] in
theorem keys_tabulate (keys : List κ) (f : κ → ν) : (tabulate keys f).keys = keys := by
  simp [tabulate, OrderedMap.keys, Function.comp_def]

theorem get?_tabulate (keys : List κ) (f : κ → ν) (k : κ) :
    (tabulate keys f).get? k = if k ∈ keys then some (f k) else none := by
  rw [tabulate, get?]
  induction keys with
  | nil => rfl
  | cons k' keys ih =>
    by_cases hk : k' = k
    · simp [find, hk]
    · simp [find, hk, Ne.symm hk, ih]

/-- A key has one entry, or none. -/
theorem filter_entries_key {m : OrderedMap κ ν} (hd : m.keys.Nodup) (k : κ) :
    m.entries.filter (·.1 = k) = ((m.get? k).map fun v => (k, v)).toList := by
  obtain ⟨es⟩ := m
  change (es.map Prod.fst).Nodup at hd
  rw [get?]
  induction es with
  | nil => rfl
  | cons e es ih =>
    obtain ⟨k', v⟩ := e
    obtain ⟨hnot, hd⟩ := List.nodup_cons.1 hd
    have hrest := ih hd
    by_cases hk : k' = k
    · subst hk
      rw [find_eq_none_iff.2 hnot] at hrest
      simp [find, hrest]
    · simp [find, hk, hrest]

/-- The entries, key by key. -/
theorem entries_eq_filterMap {m : OrderedMap κ ν} (hd : m.keys.Nodup) :
    m.entries = m.keys.filterMap fun k => (m.get? k).map fun v => (k, v) := by
  have hentry : ∀ e ∈ m.entries, (m.get? e.1).map (fun v => (e.1, v)) = some e := by
    intro e he
    rw [(mem_entries_iff hd).1 he, Option.map_some]
  rw [keys, List.filterMap_map]
  show m.entries = m.entries.filterMap fun e => (m.get? e.1).map fun v => (e.1, v)
  generalize m.entries = es at hentry
  induction es with
  | nil => rfl
  | cons e es ih =>
    obtain ⟨he, hes⟩ := List.forall_mem_cons.1 hentry
    simp only [List.filterMap_cons, he]
    rw [← ih hes]

/-- What the entry of one key contributes to a list put together from all entries. -/
theorem flatMap_entries_key {β : Type} {m : OrderedMap κ ν} (hd : m.keys.Nodup) (k : κ)
    (f : ν → List β) :
    (m.entries.flatMap fun e => if e.1 = k then f e.2 else []) = (m.get? k).toList.flatMap f := by
  have hfilter : ∀ es : List (κ × ν), (es.flatMap fun e => if e.1 = k then f e.2 else [])
      = (es.filter (·.1 = k)).flatMap fun e => f e.2 := by
    intro es
    induction es with
    | nil => rfl
    | cons e es ih =>
      by_cases hk : e.1 = k
      · simp [hk, ih]
      · simp [hk, ih]
  rw [hfilter, filter_entries_key hd]
  cases m.get? k <;> simp

/-! ## Writing one map into another -/

theorem get?_extend (m : OrderedMap κ ν) {other : OrderedMap κ ν} (hd : other.keys.Nodup) (k : κ) :
    (m.extend other).get? k = (other.get? k).or (m.get? k) := by
  rw [extend, get?_foldl_insert, lastValue, filter_entries_key hd]
  cases other.get? k <;> rfl

theorem keys_extend (m other : OrderedMap κ ν) :
    (m.extend other).keys = ((OrderedSet.mk m.keys).insertAll other.keys).items :=
  keys_foldl_insert m other.entries

theorem keys_prefix_extend (m other : OrderedMap κ ν) : m.keys <+: (m.extend other).keys := by
  rw [keys_extend]
  exact OrderedSet.items_prefix_insertAll ⟨m.keys⟩ other.keys

/-- Maps may be written into one another in any grouping. -/
theorem extend_extend {m : OrderedMap κ ν} (hm : m.keys.Nodup) {p q : OrderedMap κ ν}
    (hp : p.keys.Nodup) (hq : q.keys.Nodup) : (m.extend p).extend q = m.extend (p.extend q) := by
  refine ext_get? (nodup_extend (nodup_extend hm p) q) ?_ fun k => ?_
  · rw [keys_extend, keys_extend, keys_extend, keys_extend]
    exact congrArg OrderedSet.items (OrderedSet.insertAll_insertAll ⟨m.keys⟩ ⟨p.keys⟩ q.keys).symm
  · rw [get?_extend _ hq, get?_extend _ hp, get?_extend _ (nodup_extend hp q), get?_extend _ hq,
      Option.or_assoc]

/-- Two lists of entries may be written one behind the other, or each on its own first. -/
theorem extend_ofList (es fs : List (κ × ν)) :
    (ofList es).extend (ofList fs) = ofList (es ++ fs) := by
  refine ext_get? (nodup_extend (nodup_ofList es) _) ?_ fun k => ?_
  · rw [keys_extend, keys_ofList, keys_ofList, keys_ofList, OrderedSet.insertAll_ofList,
      List.map_append, OrderedSet.ofList_append]
  · rw [get?_extend _ (nodup_ofList fs), get?_ofList, get?_ofList, get?_ofList, lastValue_append]

end OrderedMap

end ClassDiagram
