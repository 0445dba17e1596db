import VllmCore.MultiModalCache.Order
/-!
# The two caches are mirrors of each other

P0 touches and stores its items modality by modality, P1 in the order of the prompt, and
P1 sees only what is sent.  Where the two orders agree and every request is sent, P1 does
exactly what P0 did.
-/

namespace VllmCore.MultiModalCache

open List Support

variable {T : CacheToolsOps} {c c' : LRUCache} {key : MmHash} {features : List Feature}

theorem getAndUpdateReceiver_of_sender {item data : Option Nat}
    (h : getAndUpdateSender T c item key = some (c', .ok data)) :
    getAndUpdateReceiver T c data key = some (c', .ok ()) := by
  unfold getAndUpdateSender CacheToolsOps.get at h
  unfold getAndUpdateReceiver CacheToolsOps.get
  by_cases hin : c.contains key = true
  · rw [if_pos hin] at h ⊢
    simp only [Option.some.injEq, Prod.mk.injEq, Except.ok.injEq] at h ⊢
    exact ⟨h.1, trivial⟩
  · rw [if_neg hin] at h ⊢
    cases item with
    | none => simp at h
    | some size =>
      dsimp only at h
      split at h
      · cases h
      next c₁ heq =>
        simp only [Option.some.injEq, Prod.mk.injEq, Except.ok.injEq] at h
        rw [← h.2, ← h.1]
        simp only [heq]
      · simp at h

theorem updateFeatures_of_merge {items : List (Item × Bool)}
    (h : mergeItems T c items = some (c', .ok features)) :
    updateFeatures T c features = some (c', .ok ()) ∧
      features.map (fun f => (f.hash, f.offset)) = items.map fun x => (x.1.hash, x.1.offset) := by
  induction items generalizing c c' features with
  | nil =>
    simp only [mergeItems, Option.some.injEq, Prod.mk.injEq, Except.ok.injEq] at h
    rw [← h.1, ← h.2]
    exact ⟨rfl, rfl⟩
  | cons x rest ih =>
    rw [mergeItems] at h
    split at h
    · cases h
    · simp at h
    next c₁ data hget =>
      split at h
      · cases h
      · simp at h
      next c₂ fs hrest =>
        simp only [Option.some.injEq, Prod.mk.injEq, Except.ok.injEq] at h
        obtain ⟨hupdate, hmap⟩ := ih hrest
        rw [← h.1, ← h.2]
        constructor
        · rw [updateFeatures, getAndUpdateReceiver_of_sender hget]
          exact hupdate
        · rw [map_cons, map_cons, hmap]

/-- Where the items stand in the order of the prompt, P1 does to the same cache what P0
did. -/
theorem replay {items : List Item} (h : processRequest T c items = some (c', .ok features))
    (hordered : items.Pairwise fun x y => x.offset ≤ y.offset) :
    getAndUpdateFeatures T c (sortFeatures features) = some (c', .ok ()) := by
  unfold processRequest at h
  dsimp only at h
  rw [zip_flags] at h
  obtain ⟨hupdate, hkeys⟩ := updateFeatures_of_merge h
  rw [map_map] at hkeys
  have hoffsets : features.map (fun f => f.offset) = items.map fun x => x.offset := by
    have h := congrArg (List.map Prod.snd) hkeys
    rwa [map_map, map_map] at h
  have hhashes : features.map (fun f => f.hash) = items.map fun x => x.hash := by
    have h := congrArg (List.map Prod.fst) hkeys
    rwa [map_map, map_map] at h
  have hsorted : sortFeatures features = features := by
    apply List.Pairwise.insertionSort_eq
    have hpair : (features.map fun f => f.offset).Pairwise (· ≤ ·) := by
      rw [hoffsets]
      exact pairwise_map.mpr hordered
    exact pairwise_map.mp hpair
  have htouch : features.foldl (fun c f => c.touch f.hash) c =
      items.foldl (fun c x => c.touch x.hash) c := by
    have h := congrArg (List.foldl LRUCache.touch c) hhashes
    rwa [foldl_map, foldl_map] at h
  unfold getAndUpdateFeatures
  rw [hsorted, htouch]
  exact hupdate

/-! ## Runs -/

namespace System

/-- A request is sent after it is processed, its items stand in the prompt in the order in
which they are processed, and the distinct ones fit into the cache together. -/
def Plain (s : System) : Op → Prop
  | .process items accepted =>
    accepted = true ∧ items.Pairwise (fun x y => x.offset ≤ y.offset) ∧ Fits s.p0 items
  | .handle => True

def handleAll (T : CacheToolsOps) : LRUCache → List (List Feature) → Option LRUCache
  | c, [] => some c
  | c, features :: sent =>
    match getAndUpdateFeatures T c features with
    | some (c, .ok ()) => handleAll T c sent
    | _ => none

theorem handleAll_append {c₁ c₂ : LRUCache} {sent : List (List Feature)}
    (h : handleAll T c sent = some c₁)
    (hlast : getAndUpdateFeatures T c₁ features = some (c₂, .ok ())) :
    handleAll T c (sent ++ [features]) = some c₂ := by
  induction sent generalizing c with
  | nil =>
    rw [handleAll, Option.some.injEq] at h
    rw [nil_append, handleAll, h, hlast]
    rfl
  | cons first rest ih =>
    rw [handleAll] at h
    rw [cons_append, handleAll]
    split at h
    · exact ih h
    · cases h

/-- P1 is as P0 is, once it has handled what is sent. -/
structure Mirrored (T : CacheToolsOps) (maxsize : Nat) (s : System) : Prop where
  handled : handleAll T s.p1 s.sent = some s.p0
  complete : s.p0.Complete
  size : s.p0.maxsize = maxsize

variable {T : CacheTools} {maxsize : Nat} {s t : System}

theorem mirrored_init (T : CacheTools) (maxsize : Nat) :
    Mirrored T.toCacheToolsOps maxsize (init maxsize) := by
  constructor
  · rfl
  · intro e he
    cases he
  · rfl

theorem Mirrored.run (h : Mirrored T.toCacheToolsOps maxsize s) {op : Op} (hplain : s.Plain op) :
    ∃ t, s.run T.toCacheToolsOps op = some (t, .ok ()) ∧
      Mirrored T.toCacheToolsOps maxsize t := by
  cases op with
  | process items accepted =>
    obtain ⟨rfl, hordered, hfits⟩ := hplain
    obtain ⟨p0, features, hprocess, hcomplete, hmax⟩ :=
      processRequest_spec T h.complete hfits
    refine ⟨{ s with p0 := p0, sent := s.sent ++ [sortFeatures features] }, ?_, ?_⟩
    · simp only [System.run, hprocess, if_true]
    · constructor
      · exact handleAll_append h.handled (replay hprocess hordered)
      · exact hcomplete
      · exact hmax.trans h.size
  | handle =>
    have hhandled := h.handled
    cases hsent : s.sent with
    | nil =>
      refine ⟨s, ?_, h⟩
      simp only [System.run, hsent]
    | cons features sent =>
      rw [hsent, handleAll] at hhandled
      split at hhandled
      next p1 hget =>
        refine ⟨{ s with p1 := p1, sent := sent }, ?_, hhandled, h.complete, h.size⟩
        simp only [System.run, hsent, hget]
      · cases hhandled

theorem mirrored_of_reachable
    (h : Reachable (fun s => s = init maxsize) (Step T.toCacheToolsOps Plain) s) :
    Mirrored T.toCacheToolsOps maxsize s := by
  apply h.invariant
  · intro s hs
    rw [hs]
    exact mirrored_init T maxsize
  · intro s t hs hstep
    obtain ⟨op, outcome, hplain, hrun⟩ := hstep
    obtain ⟨t', hrun', ht'⟩ := hs.run hplain
    rw [hrun, Option.some.injEq, Prod.mk.injEq] at hrun'
    rw [hrun'.1]
    exact ht'

/-- In every run of plain steps none raises, and once P1 has handled what was sent the two
caches are the same. -/
theorem caches_mirrored (T : CacheTools) (maxsize : Nat) (s : System)
    (h : Reachable (fun s => s = init maxsize) (Step T.toCacheToolsOps Plain) s) :
    (s.sent = [] → s.p0 = s.p1) ∧
      ∀ op, s.Plain op → ∃ t, s.run T.toCacheToolsOps op = some (t, .ok ()) := by
  have hmirrored := mirrored_of_reachable h
  constructor
  · intro hsent
    have hhandled := hmirrored.handled
    rw [hsent, handleAll, Option.some.injEq] at hhandled
    exact hhandled.symm
  · intro op hplain
    obtain ⟨t, hrun, _⟩ := hmirrored.run hplain
    exact ⟨t, hrun⟩

def runs (T : CacheToolsOps) (cond : System → Op → Prop) [∀ s op, Decidable (cond s op)] :
    System → List Op → Option System
  | s, [] => some s
  | s, op :: rest =>
    if cond s op then
      match s.run T op with
      | some (t, _) => runs T cond t rest
      | none => none
    else none

theorem reachable_runs {T : CacheToolsOps} {cond : System → Op → Prop}
    [∀ s op, Decidable (cond s op)] {initial : System → Prop} {ops : List Op} {s : System}
    (hs : Reachable initial (Step T cond) s) (h : runs T cond s ops = some t) :
    Reachable initial (Step T cond) t := by
  induction ops generalizing s with
  | nil =>
    rw [runs, Option.some.injEq] at h
    rw [← h]
    exact hs
  | cons op rest ih =>
    rw [runs] at h
    split at h
    next hcond =>
      split at h
      next u outcome hrun => exact ih (hs.next ⟨op, outcome, hcond, hrun⟩) h
      · cases h
    · cases h

instance (s : System) (op : Op) : Decidable (s.Plain op) :=
  match op with
  | .process items accepted =>
    inferInstanceAs (Decidable (accepted = true ∧
      items.Pairwise (fun x y => x.offset ≤ y.offset) ∧ Fits s.p0 items))
  | .handle => inferInstanceAs (Decidable True)

end System

/-! ## A cache that runs -/

/-- `popitem` until there is room; a key that is not in the cache is never removed. -/
def makeRoom : Nat → LRUCache → Nat → Option LRUCache
  | 0, c, size => if c.currsize + size ≤ c.maxsize then some c else none
  | fuel + 1, c, size =>
    if c.currsize + size ≤ c.maxsize then some c
    else match c.order.entries with
      | (key, some _) :: _ => makeRoom fuel { c with order := c.order.erase key } size
      | _ => none

def lruOps : CacheToolsOps where
  getItem c key := { c with order := c.order.moveToEnd key }
  delItem c key := { c with order := c.order.erase key }
  setItem c key size :=
    if c.maxsize < size then some (c, some (.valueError "value too large"))
    else (makeRoom c.order.entries.length c size).map fun c => (c.store key size, none)

theorem makeRoom_of_room {fuel : Nat} {size : Nat}
    (h : c.currsize + size ≤ c.maxsize) : makeRoom fuel c size = some c := by
  cases fuel <;> rw [makeRoom, if_pos h]

theorem erase_touch (c : LRUCache) (key : MmHash) :
    (c.touch key).order.erase key = c.order.erase key := by
  have h := CacheTools.entries_erase_touch c key
  generalize (c.touch key).order.erase key = d at h
  generalize c.order.erase key = e at h
  obtain ⟨xs, _⟩ := d
  obtain ⟨ys, _⟩ := e
  obtain rfl : xs = ys := h
  rfl

theorem lruOps_pop (h : c.contains key = true) :
    lruOps.pop c key = { c with order := c.order.erase key } := by
  have htouch : ∀ {c : LRUCache}, c.contains key = true → lruOps.getItem c key = c.touch key := by
    intro c h
    rw [LRUCache.touch, if_pos]
    · rfl
    · obtain ⟨size, hmem⟩ := LRUCache.contains_iff.mp h
      exact mem_map.mpr ⟨_, hmem, rfl⟩
  have h₁ : (c.touch key).contains key = true := by rw [LRUCache.contains_touch, h]
  have hmax : ((c.touch key).touch key).maxsize = c.maxsize := by
    rw [LRUCache.maxsize_touch, LRUCache.maxsize_touch]
  rw [CacheToolsOps.pop, if_pos h, htouch h, htouch h₁]
  unfold lruOps
  dsimp only
  rw [erase_touch, erase_touch, hmax]

theorem lruOps_setItem_large (c : LRUCache) (key : MmHash) (size : Nat) (h : c.maxsize < size) :
    lruOps.setItem c key size = some (c, some (.valueError "value too large")) := by
  unfold lruOps
  dsimp only
  rw [if_pos h]

theorem lruOps_setItem_room (c : LRUCache) (key : MmHash) (size : Nat)
    (h : c.currsize + size ≤ c.maxsize) :
    lruOps.setItem c key size = some (c.store key size, none) := by
  unfold lruOps
  dsimp only
  rw [if_neg (by omega), makeRoom_of_room h]
  rfl

theorem lruOps_setItem_pop (c c' : LRUCache) (key : MmHash) (size : Nat) (hsize : size ≤ c.maxsize)
    (hroom : c.maxsize < c.currsize + size) (hpop : lruOps.popitem c = .ok c') :
    lruOps.setItem c key size = lruOps.setItem c' key size := by
  unfold CacheToolsOps.popitem at hpop
  split at hpop
  · cases hpop
  next e rest hentries =>
    obtain ⟨k, v⟩ := e
    have hpopped : lruOps.pop c k = c' := Except.ok.inj hpop
    cases v with
    | none =>
      have hnot : ¬c.contains k = true := by
        intro hin
        obtain ⟨s, hmem⟩ := LRUCache.contains_iff.mp hin
        rw [← Dict.get?_eq_some_iff] at hmem
        have hget := (Dict.get?_eq_some_iff c.order k none).mpr
          (hentries ▸ mem_cons_self)
        rw [hmem] at hget
        cases hget
      rw [CacheToolsOps.pop, if_neg hnot] at hpopped
      rw [hpopped]
    | some s =>
      have hin : c.contains k = true :=
        LRUCache.contains_iff.mpr ⟨s, hentries ▸ mem_cons_self⟩
      rw [lruOps_pop hin] at hpopped
      rw [← hpopped]
      unfold lruOps
      dsimp only
      rw [if_neg (by omega), if_neg (by omega), LRUCache.erase_head hentries, hentries,
        length_cons, makeRoom, if_neg (by omega), hentries]

/-- `lruOps` behaves as documented. -/
def lruTools : CacheTools where
  toCacheToolsOps := lruOps
  getItem_eq _ _ _ := rfl
  delItem_eq _ _ _ := rfl
  setItem_large := lruOps_setItem_large
  setItem_room c key size _ := lruOps_setItem_room c key size
  setItem_pop c c' key size _ := lruOps_setItem_pop c c' key size

namespace System

def twoItems : List Op := [.process [⟨1, 4, 0⟩, ⟨2, 5, 3⟩] true, .handle]

theorem caches_mirrored_twoItems : ∃ s, runs lruOps Plain (init 10) twoItems = some s ∧
    s.p0.contains 2 = true ∧ s.p0 = s.p1 := by
  obtain ⟨s, hrun, hs⟩ := (Option.any_eq_true _ _).mp (by decide +kernel :
    (runs lruOps Plain (init 10) twoItems).any
      (fun s => s.sent.isEmpty && s.p0.contains 2) = true)
  rw [Bool.and_eq_true, List.isEmpty_iff] at hs
  have hstart : Reachable (fun s => s = init 10) (Step lruOps Plain) (init 10) := .start rfl
  have hreach := reachable_runs hstart hrun
  exact ⟨s, hrun, hs.2, (caches_mirrored lruTools 10 s hreach).1 hs.1⟩

def rejected : List Op := [.process [⟨1, 4, 0⟩] false, .process [⟨1, 4, 0⟩] true]

/-- P1 expects an item that was never sent. -/
theorem not_caches_mirrored : ∃ s t,
    Reachable (fun s => s = init 10) (Step lruOps fun _ _ => True) s ∧
      s.run lruOps .handle = some (t, .error (.assertionError "Expected a cached item")) := by
  obtain ⟨s, hrun, hs⟩ := (Option.any_eq_true _ _).mp (by decide +kernel :
    (runs lruOps (fun _ _ => True) (init 10) rejected).any (fun s =>
      (s.run lruOps .handle).any fun r =>
        decide (r.2 = .error (.assertionError "Expected a cached item"))) = true)
  obtain ⟨⟨t, outcome⟩, hstep, houtcome⟩ := (Option.any_eq_true _ _).mp hs
  have houtcome := of_decide_eq_true houtcome
  dsimp only at houtcome
  rw [houtcome] at hstep
  have hstart : Reachable (fun s => s = init 10) (Step lruOps fun _ _ => True) (init 10) :=
    .start rfl
  exact ⟨s, t, reachable_runs hstart hrun, hstep⟩

end System

end VllmCore.MultiModalCache
