import VllmCore.Support.Py
/-!
# Insertion-ordered dictionaries

A Python `dict`: a list of entries with pairwise distinct keys, in insertion
order.  Overwriting a key keeps its position.  The distinctness of the keys is
a field, so that every operation below proves it once.
-/

namespace VllmCore.Support

open List

variable {K V : Type} [DecidableEq K]

structure Dict (K V : Type) where
  entries : List (K × V)
  nodup : (entries.map Prod.fst).Nodup

namespace Dict

def empty : Dict K V := ⟨[], nodup_nil⟩

def keys (d : Dict K V) : List K := d.entries.map Prod.fst

def values (d : Dict K V) : List V := d.entries.map Prod.snd

/-- `d.get(k)`. -/
def get? (d : Dict K V) (k : K) : Option V := d.entries.lookup k

/-- `k in d`. -/
def contains (d : Dict K V) (k : K) : Bool := (d.get? k).isSome

/-- `d[k]`. -/
def get (d : Dict K V) (k : K) : Py V :=
  match d.get? k with
  | some v => .ok v
  | none => .error (.keyError "key not found")

/-- Overwrite the value of `k` where it stands. -/
def overwrite (k : K) (v : V) (xs : List (K × V)) : List (K × V) :=
  xs.map fun e => if e.1 = k then (k, v) else e

theorem map_fst_overwrite (k : K) (v : V) (xs : List (K × V)) :
    (overwrite k v xs).map Prod.fst = xs.map Prod.fst := by
  simp only [overwrite, map_map]
  apply map_congr_left
  intro e _
  by_cases h : e.1 = k <;> simp [h]

/-- `d[k] = v`. -/
def set (d : Dict K V) (k : K) (v : V) : Dict K V :=
  if h : k ∈ d.keys then
    ⟨overwrite k v d.entries, by rw [map_fst_overwrite]; exact d.nodup⟩
  else
    ⟨d.entries ++ [(k, v)], by
      rw [map_append]
      exact nodup_append.mpr
        ⟨d.nodup, by simp, by
          intro a ha b hb
          simp only [map_cons, map_nil, mem_singleton] at hb
          rintro rfl
          exact h (hb ▸ ha)⟩⟩

/-- `d.pop(k, None)`, forgetting the value. -/
def erase (d : Dict K V) (k : K) : Dict K V :=
  ⟨d.entries.filter fun e => e.1 ≠ k, by
    exact d.nodup.sublist (List.Sublist.map _ filter_sublist)⟩

def mapValues {W : Type} (f : V → W) (d : Dict K V) : Dict K W :=
  ⟨d.entries.map fun e => (e.1, f e.2), by
    rw [map_map]
    exact d.nodup⟩

/-- `d.move_to_end(k)`, for a key that is there. -/
def moveToEnd (d : Dict K V) (k : K) : Dict K V :=
  match d.get? k with
  | none => d
  | some v => (d.erase k).set k v

/-- `d.popitem(last=False)`, `n` times. -/
def dropFirst (d : Dict K V) (n : Nat) : Dict K V :=
  ⟨d.entries.drop n, d.nodup.sublist (List.Sublist.map _ (drop_sublist n d.entries))⟩

/-! ## Lookup -/

variable {k : K} {xs : List (K × V)} {v : V}

theorem lookup_eq_none : xs.lookup k = none ↔ k ∉ xs.map Prod.fst := by
  induction xs with
  | nil => simp
  | cons e xs ih =>
    obtain ⟨a, v⟩ := e
    by_cases h : k = a
    · simp [h]
    · simp [lookup_cons, beq_eq_false_iff_ne.mpr h, ih, h]

theorem mem_keys_iff (d : Dict K V) (k : K) : k ∈ d.keys ↔ d.get? k ≠ none := by
  rw [keys, get?, ne_eq, lookup_eq_none, not_not]

theorem exists_of_mem_keys {d : Dict K V} {k : K} (h : k ∈ d.keys) : ∃ v, d.get? k = some v :=
  Option.ne_none_iff_exists'.mp ((mem_keys_iff d k).mp h)

theorem get?_eq_none_iff (d : Dict K V) (k : K) : d.get? k = none ↔ k ∉ d.keys := by
  rw [keys, get?, lookup_eq_none]

@[simp] theorem contains_iff (d : Dict K V) (k : K) :
    d.contains k = true ↔ k ∈ d.keys := by
  rw [contains, mem_keys_iff, Option.isSome_iff_ne_none]

theorem lookup_eq_some (hnd : (xs.map Prod.fst).Nodup) : xs.lookup k = some v ↔ (k, v) ∈ xs := by
  induction xs with
  | nil => simp
  | cons e xs ih =>
    obtain ⟨a, w⟩ := e
    rw [map_cons, nodup_cons] at hnd
    by_cases h : k = a
    · subst h
      have hnot : (k, v) ∉ xs := fun hm =>
        hnd.1 (mem_map.mpr ⟨_, hm, rfl⟩)
      simp [hnot, eq_comm]
    · simp [lookup_cons, beq_eq_false_iff_ne.mpr h, ih hnd.2, h]

theorem get?_eq_some_iff (d : Dict K V) (k : K) (v : V) :
    d.get? k = some v ↔ (k, v) ∈ d.entries :=
  lookup_eq_some d.nodup

theorem get_ok {d : Dict K V} : d.get k = .ok v ↔ d.get? k = some v := by
  unfold get
  cases d.get? k <;> simp

@[simp] theorem get?_empty (k : K) : (empty : Dict K V).get? k = none := rfl

theorem lookup_overwrite (k : K) (v : V) (xs : List (K × V)) (j : K) :
    (overwrite k v xs).lookup j =
      if j = k then (if k ∈ xs.map Prod.fst then some v else none) else xs.lookup j := by
  induction xs with
  | nil => by_cases h : j = k <;> simp [overwrite, h]
  | cons e xs ih =>
    obtain ⟨a, w⟩ := e
    simp only [overwrite, map_cons] at ih ⊢
    by_cases hak : a = k
    · subst hak
      by_cases hja : j = a
      · simp [hja]
      · simp only [if_true, lookup_cons, beq_eq_false_iff_ne.mpr hja]
        rw [ih]
        simp [hja]
    · have hka : ¬k = a := fun h => hak h.symm
      by_cases hja : j = a
      · subst hja
        simp [hak]
      · simp only [if_neg hak, lookup_cons, beq_eq_false_iff_ne.mpr hja]
        rw [ih]
        simp only [mem_cons, hka, false_or]

theorem lookup_append_new (h : k ∉ xs.map Prod.fst) (j : K) :
    (xs ++ [(k, v)]).lookup j = if j = k then some v else xs.lookup j := by
  induction xs with
  | nil =>
    by_cases hj : j = k
    · simp [hj]
    · simp [lookup_cons, beq_eq_false_iff_ne.mpr hj, hj]
  | cons e xs ih =>
    obtain ⟨a, w⟩ := e
    simp only [map_cons, mem_cons, not_or] at h
    by_cases hja : j = a
    · subst hja
      have hjk : ¬j = k := fun hjk => h.1 hjk.symm
      simp [hjk]
    · simp only [cons_append, lookup_cons, beq_eq_false_iff_ne.mpr hja]
      exact ih h.2

theorem get?_mapValues {W : Type} (f : V → W) (d : Dict K V) (k : K) :
    (d.mapValues f).get? k = (d.get? k).map f := by
  unfold mapValues get?
  dsimp only
  induction d.entries with
  | nil => rfl
  | cons e rest ih =>
    rw [map_cons, lookup_cons, lookup_cons]
    split
    · rfl
    · exact ih

theorem get?_set (d : Dict K V) (k : K) (v : V) (j : K) :
    (d.set k v).get? j = if j = k then some v else d.get? j := by
  unfold set get?
  by_cases h : k ∈ d.keys
  · rw [dif_pos h, lookup_overwrite]
    have h' : k ∈ d.entries.map Prod.fst := h
    rw [if_pos h']
  · rw [dif_neg h]
    exact lookup_append_new h j

@[simp] theorem get?_set_self (d : Dict K V) (k : K) (v : V) :
    (d.set k v).get? k = some v := by simp [get?_set]

theorem get?_set_ne (d : Dict K V) {j : K} (v : V) (h : j ≠ k) :
    (d.set k v).get? j = d.get? j := by simp [get?_set, h]

theorem lookup_filter_ne (xs : List (K × V)) (k j : K) :
    (xs.filter fun e => e.1 ≠ k).lookup j = if j = k then none else xs.lookup j := by
  induction xs with
  | nil => simp
  | cons e xs ih =>
    obtain ⟨a, w⟩ := e
    by_cases hak : a = k
    · subst hak
      rw [filter_cons_of_neg (by simp), ih]
      by_cases hja : j = a
      · simp [hja]
      · simp [lookup_cons, hja, beq_eq_false_iff_ne.mpr hja]
    · rw [filter_cons_of_pos (by simpa using hak)]
      by_cases hja : j = a
      · subst hja
        simp [hak]
      · simp only [lookup_cons, beq_eq_false_iff_ne.mpr hja]
        exact ih

section

variable (d : Dict K V)

include d

theorem get?_erase (k j : K) :
    (d.erase k).get? j = if j = k then none else d.get? j :=
  lookup_filter_ne d.entries k j

@[simp] theorem get?_erase_self (k : K) : (d.erase k).get? k = none := by
  simp [get?_erase]

theorem get?_erase_ne {j : K} (h : j ≠ k) : (d.erase k).get? j = d.get? j := by simp [get?_erase, h]

theorem keys_set_of_mem (h : k ∈ d.keys) (v : V) : (d.set k v).keys = d.keys := by
  unfold set keys at *
  rw [dif_pos h]
  exact map_fst_overwrite k v d.entries

theorem mem_keys_set (k : K) (v : V) (j : K) :
    j ∈ (d.set k v).keys ↔ j = k ∨ j ∈ d.keys := by
  rw [mem_keys_iff, get?_set, mem_keys_iff]
  by_cases h : j = k <;> simp [h]

theorem mem_keys_erase (k j : K) :
    j ∈ (d.erase k).keys ↔ j ≠ k ∧ j ∈ d.keys := by
  rw [mem_keys_iff, get?_erase, mem_keys_iff]
  by_cases h : j = k <;> simp [h]

end

theorem overwrite_of_not_mem (k : K) (v : V) (h : k ∉ xs.map Prod.fst) : overwrite k v xs = xs := by
  unfold overwrite
  rw [map_congr_left (g := id), map_id]
  intro e he
  have hne : e.1 ≠ k := fun heq => h (mem_map.mpr ⟨e, he, heq⟩)
  simp [hne]

theorem entries_perm_erase (d : Dict K V) (h : d.get? k = some v) :
    d.entries.Perm ((k, v) :: (d.erase k).entries) := by
  have hnodup : d.entries.Nodup := List.Nodup.of_map _ d.nodup
  have hnew : (k, v) ∉ (d.erase k).entries := by
    intro hin
    have hne := (mem_filter.mp hin).2
    simp at hne
  refine (perm_ext_iff_of_nodup hnodup (nodup_cons.mpr
    ⟨hnew, hnodup.sublist filter_sublist⟩)).mpr ?_
  rintro ⟨j, w⟩
  by_cases hjk : j = k
  · subst hjk
    have hval : (j, w) ∈ d.entries ↔ w = v := by
      rw [← get?_eq_some_iff, h, Option.some.injEq, eq_comm]
    rw [hval, mem_cons, Prod.mk.injEq]
    simp [erase]
  · simp [erase, hjk]

theorem erase_of_not_mem (d : Dict K V) (h : k ∉ d.keys) : (d.erase k).entries = d.entries := by
  refine filter_eq_self.mpr ?_
  intro e he
  have hne : e.1 ≠ k := fun heq => h (mem_map.mpr ⟨e, he, heq⟩)
  simpa using hne

theorem entries_set_new (d : Dict K V) (h : k ∉ d.keys) (v : V) :
    (d.set k v).entries = d.entries ++ [(k, v)] := by
  unfold set
  rw [dif_neg h]

theorem entries_foldl_set {xs : List (K × V)} (d : Dict K V)
    (h : ((d.entries ++ xs).map Prod.fst).Nodup) :
    (xs.foldl (fun d e => d.set e.1 e.2) d).entries = d.entries ++ xs := by
  induction xs generalizing d with
  | nil => exact (append_nil _).symm
  | cons e xs ih =>
    have hnew : e.1 ∉ d.keys := by
      rw [map_append, nodup_append] at h
      intro hin
      exact h.2.2 _ hin _ (by simp) rfl
    have hset := entries_set_new d hnew e.2
    rw [foldl_cons, ih, hset, append_assoc]
    · rfl
    · rw [hset, append_assoc]
      exact h

theorem foldl_set_entries (d : Dict K V) :
    d.entries.foldl (fun d e => d.set e.1 e.2) empty = d := by
  obtain ⟨xs, hnodup⟩ := d
  have hentries := @entries_foldl_set K V _ xs empty hnodup
  generalize xs.foldl (fun d e => d.set e.1 e.2) empty = e at hentries ⊢
  obtain ⟨ys, _⟩ := e
  obtain rfl : ys = xs := hentries
  rfl

theorem entries_set_perm (d : Dict K V) (k : K) (v : V) :
    (d.set k v).entries.Perm ((k, v) :: (d.erase k).entries) := by
  refine (entries_perm_erase _ (get?_set_self d k v)).trans (List.Perm.cons _ ?_)
  refine (perm_ext_iff_of_nodup ?_ ?_).mpr ?_
  · exact (List.Nodup.of_map _ (d.set k v).nodup).sublist filter_sublist
  · exact (List.Nodup.of_map _ d.nodup).sublist filter_sublist
  · rintro ⟨j, w⟩
    rw [← get?_eq_some_iff, ← get?_eq_some_iff, get?_erase, get?_erase, get?_set]
    split <;> simp_all

theorem moveToEnd_perm (d : Dict K V) (k : K) : (d.moveToEnd k).entries.Perm d.entries := by
  unfold moveToEnd
  split
  · exact .refl _
  · rename_i v hv
    rw [entries_set_new _ (by simp [mem_keys_erase])]
    exact (perm_append_singleton _ _).trans (entries_perm_erase d hv).symm

theorem set_set (d : Dict K V) (k : K) (v w : V) : (d.set k v).set k w = d.set k w := by
  have hk : k ∈ (d.set k v).keys := (mem_keys_set d k v k).mpr (.inl rfl)
  have heq : ∀ {d e : Dict K V}, d.entries = e.entries → d = e := by
    rintro ⟨_, _⟩ ⟨_, _⟩ rfl
    rfl
  apply heq
  rw [set, dif_pos hk]
  unfold set
  by_cases h : k ∈ d.keys
  · simp only [dif_pos h, overwrite, map_map]
    apply map_congr_left
    intro e _
    by_cases hek : e.1 = k <;> simp [hek]
  · simp only [dif_neg h]
    rw [overwrite, map_append, ← overwrite, overwrite_of_not_mem k w h]
    simp

/-! ## The items of list-valued dictionaries -/

def items (d : Dict K (List V)) : Multiset V := ↑(d.entries.flatMap Prod.snd)

omit [DecidableEq K] in
@[simp] theorem items_empty : (empty : Dict K (List V)).items = 0 := rfl

theorem items_entries_erase (xs : List (K × List V)) (hnd : (xs.map Prod.fst).Nodup) (k : K) :
    (↑(xs.flatMap Prod.snd) : Multiset V) =
      ↑((xs.lookup k).getD []) + ↑((xs.filter fun e => e.1 ≠ k).flatMap Prod.snd) := by
  induction xs with
  | nil => simp
  | cons e xs ih =>
    obtain ⟨a, w⟩ := e
    rw [map_cons, nodup_cons] at hnd
    have ih := ih hnd.2
    rw [flatMap_cons, ← Multiset.coe_add]
    by_cases hak : a = k
    · subst hak
      have hlook : xs.lookup a = none := lookup_eq_none.mpr hnd.1
      rw [ih, hlook]
      simp
    · have hka : (k == a) = false := beq_eq_false_iff_ne.mpr fun h => hak h.symm
      rw [filter_cons_of_pos (by simpa using hak), flatMap_cons,
        ← Multiset.coe_add, ih, lookup_cons, hka]
      exact add_left_comm _ _ _

theorem items_eq_add_erase (d : Dict K (List V)) (k : K) :
    d.items = ↑((d.get? k).getD []) + (d.erase k).items :=
  items_entries_erase d.entries d.nodup k

theorem lookup_perm {ys : List (K × V)} (hx : (xs.map Prod.fst).Nodup)
    (hy : (ys.map Prod.fst).Nodup) (h : ∀ k, xs.lookup k = ys.lookup k) : xs.Perm ys := by
  rw [perm_ext_iff_of_nodup (List.Nodup.of_map _ hx) (List.Nodup.of_map _ hy)]
  rintro ⟨k, v⟩
  rw [← lookup_eq_some hx, ← lookup_eq_some hy, h]

theorem items_congr {d e : Dict K (List V)} (h : ∀ k, d.get? k = e.get? k) :
    d.items = e.items := by
  have hperm := lookup_perm d.nodup e.nodup h
  exact Multiset.coe_eq_coe.mpr (hperm.flatMap_right Prod.snd)

theorem items_set (d : Dict K (List V)) (k : K) (xs : List V) :
    (d.set k xs).items = ↑xs + (d.erase k).items := by
  rw [items_eq_add_erase (d.set k xs) k, get?_set_self, Option.getD_some]
  congr 1
  apply items_congr
  intro j
  by_cases h : j = k
  · simp [h]
  · rw [get?_erase_ne _ h, get?_erase_ne _ h, get?_set_ne _ _ h]

/-- `d[k].append(v)` of a `defaultdict(list)`. -/
def appendTo (d : Dict K (List V)) (k : K) (v : V) : Dict K (List V) :=
  d.set k ((d.get? k).getD [] ++ [v])

def grouped (xs : List (K × V)) : Dict K (List V) :=
  xs.foldl (fun d e => d.appendTo e.1 e.2) empty

theorem getD_grouped (xs : List (K × V)) (k : K) :
    ((grouped xs).get? k).getD [] = (xs.filter (·.1 = k)).map (·.2) := by
  have hfold : ∀ (d : Dict K (List V)) (xs : List (K × V)),
      ((xs.foldl (fun d e => d.appendTo e.1 e.2) d).get? k).getD [] =
        (d.get? k).getD [] ++ (xs.filter (·.1 = k)).map (·.2) := by
    intro d xs
    induction xs generalizing d with
    | nil => simp
    | cons e xs ih =>
      rw [foldl_cons, ih]
      by_cases hek : e.1 = k
      · rw [filter_cons_of_pos (by simpa using hek), appendTo, hek, get?_set_self]
        simp
      · rw [filter_cons_of_neg (by simpa using hek), appendTo,
          get?_set_ne _ _ (Ne.symm hek)]
  exact hfold empty xs

end Dict

end VllmCore.Support
