import VllmCore.StructuredOutput.Filling
/-!
# The serial and the parallel path

The serial path goes over the tokens of each request and rolls its grammar back; the
parallel path submits one item for each request, and the items are done in any order.
-/

namespace VllmCore.StructuredOutput

open Function List Support Dict

variable {σ : Type} {G : GrammarOps σ} {Valid : σ → Prop} {Validated : σ → List Int → Prop}

/-! ## The serial path -/

def realTokens (tokens : List Int) : List Int := tokens.takeWhile (· != -1)

variable {t : Int} {index : Nat} {f : Filling σ} {cfg : Config} {requests : Dict ReqId Request}
  {spec : Dict ReqId (List Int)} {id : ReqId} {ids : List ReqId} {items : List Fill}

theorem realTokens_cons (ht : (t != -1) = true) (ts : List Int) :
    realTokens (t :: ts) = t :: realTokens ts := takeWhile_cons_of_pos ht

theorem fillRequest_idle (reqId : ReqId) {tokens : List Int} {index : Nat} (adv : Nat)
    {f : Filling σ} (hindex : index + tokens.length ≤ f.bitmask.length) :
    fillRequest G reqId tokens false index adv f =
      .ok (⟨f.grammars, writeRows f.bitmask index (rowsFrom G (f.grammars reqId) false tokens)⟩,
        index + tokens.length, adv) := by
  induction tokens generalizing index f with
  | nil => rfl
  | cons t tokens ih =>
    rw [length_cons] at hindex
    have hset : f.setGrammar reqId (f.grammars reqId) = f := by
      unfold Filling.setGrammar
      rw [update_eq_self]
    have hfill := fillBitmasks_single (G := G) (f := f) (e := ⟨reqId, index, false⟩)
      (by dsimp only; omega)
    have hrest := @ih (index + 1) (f.setRow index fullMask)
      (by
        show _ ≤ (f.bitmask.set index _).length
        rw [length_set]
        omega)
    have hindex' : index + 1 + tokens.length = index + (tokens.length + 1) := by omega
    unfold fillRequest
    rw [hfill, ok_bind]
    dsimp only [checked, rowAt]
    rw [if_neg Bool.false_ne_true, hset, Bool.false_and, Bool.false_and,
      if_neg Bool.false_ne_true, if_neg Bool.false_ne_true, hrest, length_cons, hindex']
    rfl

theorem fillRequest_single (reqId : ReqId) {tokens : List Int} {constrained : Bool}
    (adv : Nat) (ht : (constrained && t != -1) = false)
    (hindex : index + (t :: tokens).length ≤ f.bitmask.length) :
    fillRequest G reqId (t :: tokens) constrained index adv f =
      .ok (⟨update f.grammars reqId (checked G (f.grammars reqId) constrained),
          writeRows f.bitmask index (rowsFrom G (f.grammars reqId) constrained (t :: tokens))⟩,
        index + (t :: tokens).length, adv) := by
  rw [length_cons] at hindex
  have hfill := fillBitmasks_single (G := G) (f := f) (e := ⟨reqId, index, constrained⟩)
    (by dsimp only; omega)
  have hrest := @fillRequest_idle _ G reqId tokens (index + 1) adv
    ((f.setGrammar reqId (checked G (f.grammars reqId) constrained)).setRow index
      (rowAt G (f.grammars reqId) constrained))
    (by
      show _ ≤ (f.bitmask.set index _).length
      rw [length_set]
      omega)
  have hindex' : index + 1 + tokens.length = index + (tokens.length + 1) := by omega
  unfold fillRequest
  rw [hfill, ok_bind]
  rw [ht, if_neg Bool.false_ne_true, hrest, length_cons, hindex', rowsFrom, ht,
    rowsFrom_false, rowsFrom_false]
  rfl

theorem fillRequest_spec (hG : Lawful G Valid Validated) (reqId : ReqId) {tokens : List Int}
    {constrained : Bool} {index adv : Nat} {f : Filling σ} (hvalid : Valid (f.grammars reqId))
    (htokens : constrained = true → terminated G (f.grammars reqId) = false →
      Validated (f.grammars reqId) (realTokens tokens))
    (hindex : index + tokens.length ≤ f.bitmask.length) :
    ∃ ts rest, ts ++ rest = realTokens tokens ∧ (ts ≠ [] → constrained = true) ∧
      Accepts G (f.grammars reqId) ts ∧
      fillRequest G reqId tokens constrained index adv f =
        .ok (⟨update f.grammars reqId (ts.foldl (accept G) (f.grammars reqId)),
            writeRows f.bitmask index (rowsFrom G (f.grammars reqId) constrained tokens)⟩,
          index + tokens.length, adv + ts.length) := by
  induction tokens generalizing constrained index adv f with
  | nil =>
    refine ⟨[], [], rfl, fun h => absurd rfl h, trivial, ?_⟩
    rw [foldl_nil, update_eq_self]
    rfl
  | cons t tokens ih =>
    cases hflag : constrained && t != -1 with
    | false =>
      refine ⟨[], realTokens (t :: tokens), nil_append _, fun h => absurd rfl h, trivial,
        ?_⟩
      rw [fillRequest_single reqId adv hflag hindex, hG.checked_same hvalid]
      rfl
    | true =>
      have hconstrained : constrained = true := (Bool.and_eq_true_iff.mp hflag).1
      have hreal : (t != -1) = true := (Bool.and_eq_true_iff.mp hflag).2
      have htokens := htokens hconstrained
      rw [realTokens_cons hreal] at htokens ⊢
      rw [length_cons] at hindex
      have hset : f.setGrammar reqId (f.grammars reqId) = f := by
        unfold Filling.setGrammar
        rw [update_eq_self]
      have hfill := fillBitmasks_single (G := G) (f := f) (e := ⟨reqId, index, constrained⟩)
        (by dsimp only; omega)
      rw [hG.checked_same hvalid, hset] at hfill
      have hlen : index + 1 + tokens.length ≤
          (f.setRow index (rowAt G (f.grammars reqId) constrained)).bitmask.length := by
        show _ ≤ (f.bitmask.set index _).length
        rw [length_set]
        omega
      have hindex' : index + 1 + tokens.length = index + (tokens.length + 1) := by omega
      have hadv := advance_ok hG (f := f.setRow index (rowAt G (f.grammars reqId) constrained))
        adv hvalid
        (fun hterm => (hG.accept_validated _ _ _ hvalid hterm (htokens hterm)).1)
      have hgrammars : (f.setRow index (rowAt G (f.grammars reqId) constrained)).grammars =
          f.grammars := rfl
      unfold fillRequest
      rw [hfill, ok_bind]
      dsimp only
      rw [hflag, if_pos rfl, hadv, hgrammars]
      cases hterm : terminated G (f.grammars reqId) with
      | true =>
        obtain ⟨ts, rest, _, _, hts, hrun⟩ := @ih true (index + 1) adv
          (f.setRow index (rowAt G (f.grammars reqId) constrained)) hvalid
          (fun _ h => by rw [hgrammars, hterm] at h; cases h) hlen
        -- a grammar that has terminated accepts nothing
        obtain rfl := hts.eq_nil hterm
        refine ⟨[], t :: realTokens tokens, rfl, fun h => absurd rfl h, trivial, ?_⟩
        rw [if_pos rfl, ok_bind, hrun, length_cons, hindex', rowsFrom, hflag]
        simp only [hterm]
        rfl
      | false =>
        have hstep := hG.accept_validated _ _ _ hvalid hterm (htokens hterm)
        have hnext : update f.grammars reqId (accept G (f.grammars reqId) t) reqId =
            accept G (f.grammars reqId) t := update_self _ _ _
        obtain ⟨ts, rest, hsplit, _, hts, hrun⟩ := @ih true (index + 1) (adv + 1)
          ((f.setRow index (rowAt G (f.grammars reqId) constrained)).setGrammar reqId
            (accept G (f.grammars reqId) t))
          (by
            show Valid (update f.grammars reqId _ reqId)
            rw [hnext]
            exact hstep.2.1)
          (fun _ _ => by
            show Validated (update f.grammars reqId _ reqId) _
            rw [hnext]
            exact hstep.2.2)
          hlen
        have hstart : ((f.setRow index (rowAt G (f.grammars reqId) constrained)).setGrammar
            reqId (accept G (f.grammars reqId) t)).grammars =
            update f.grammars reqId (accept G (f.grammars reqId) t) := rfl
        rw [hstart, hnext] at hts hrun
        refine ⟨t :: ts, rest, ?_, fun _ => hconstrained, ⟨hterm, hstep.1, hts⟩, ?_⟩
        · rw [cons_append, hsplit]
        · rw [if_neg Bool.false_ne_true, ok_bind, hrun, update_idem,
            length_cons, hindex', rowsFrom, hflag, length_cons, foldl_cons,
            Nat.add_right_comm adv 1, Nat.add_assoc adv]
          simp only [hterm]
          rfl

def constrained (cfg : Config) (requests : Dict ReqId Request) (reqId : ReqId) : Bool :=
  match requests.get? reqId with
  | some r => (shouldFillBitmask cfg r).2
  | none => false

/-- The requests after `should_fill_bitmask` was asked about these. -/
def askAll (cfg : Config) (requests : Dict ReqId Request) (ids : List ReqId) :
    Dict ReqId Request :=
  ids.foldl (fun requests reqId =>
    match requests.get? reqId with
    | some r => requests.set reqId (shouldFillBitmask cfg r).1
    | none => requests) requests

def draftsOf (spec : Dict ReqId (List Int)) (reqId : ReqId) : List Int :=
  (spec.get? reqId).getD []

def rowsOf (G : GrammarOps σ) (cfg : Config) (requests : Dict ReqId Request)
    (grammars : ReqId → σ) (spec : Dict ReqId (List Int)) (reqId : ReqId) : List Row :=
  rowsFrom G (grammars reqId) (constrained cfg requests reqId) (draftsOf spec reqId ++ [-1])

@[simp] theorem length_rowsOf (cfg : Config) (requests : Dict ReqId Request)
    (grammars : ReqId → σ) (spec : Dict ReqId (List Int)) (reqId : ReqId) :
    (rowsOf G cfg requests grammars spec reqId).length = numRows spec reqId := by
  unfold rowsOf numRows draftsOf
  rw [length_rowsFrom, length_append, length_singleton, Nat.add_comm]

theorem realTokens_append (drafts : List Int) :
    realTokens (drafts ++ [-1]) = realTokens drafts := by
  unfold realTokens
  rw [takeWhile_append]
  split
  · rename_i h
    have heq := (List.takeWhile_prefix (p := (· != -1)) (l := drafts)).eq_of_length h
    rw [heq]
    simp
  · rfl

/-- What `grammar_bitmask` needs of the requests it is asked about: they are known, and the
real drafts of those to be constrained are validated, for a grammar in order. -/
structure Ready (G : GrammarOps σ) (Valid : σ → Prop) (Validated : σ → List Int → Prop)
    (cfg : Config) (requests : Dict ReqId Request) (grammars : ReqId → σ)
    (spec : Dict ReqId (List Int)) (ids : List ReqId) : Prop where
  known : ∀ id ∈ ids, id ∈ requests.keys
  validated : ∀ id ∈ ids, constrained cfg requests id = true →
    realTokens (draftsOf spec id) ≠ [] →
    Valid (grammars id) ∧
      (terminated G (grammars id) = false → Validated (grammars id) (realTokens (draftsOf spec id)))

theorem Ready.tail {grammars : ReqId → σ}
    (h : Ready G Valid Validated cfg requests grammars spec (id :: ids)) (hnew : id ∉ ids)
    (r : Request) (s : σ) :
    Ready G Valid Validated cfg (requests.set id r) (update grammars id s) spec ids := by
  constructor
  · intro j hj
    rw [mem_keys_set]
    exact .inr (h.known j (mem_cons_of_mem _ hj))
  · intro j hj hcons hreal
    have hne : j ≠ id := fun heq => hnew (heq ▸ hj)
    unfold constrained at hcons
    rw [get?_set_ne _ _ hne] at hcons
    rw [update_of_ne hne]
    exact h.validated j (mem_cons_of_mem _ hj) hcons hreal

/-- The grammars after `grammar_bitmask`: those of its requests are checked. -/
def leave (G : GrammarOps σ) (cfg : Config) (requests : Dict ReqId Request) (ids : List ReqId)
    (grammars : ReqId → σ) : ReqId → σ :=
  fun id => if id ∈ ids then checked G (grammars id) (constrained cfg requests id) else grammars id

theorem leave_set (hnew : id ∉ ids) (r : Request) (grammars : ReqId → σ) :
    leave G cfg (requests.set id r) ids grammars = leave G cfg requests ids grammars := by
  funext j
  unfold leave constrained
  split
  · rename_i hj
    have hne : j ≠ id := fun heq => hnew (heq ▸ hj)
    rw [get?_set_ne _ _ hne]
  · rfl

theorem leave_cons (hnew : id ∉ ids) (grammars : ReqId → σ) :
    leave G cfg requests ids (update grammars id
        (checked G (grammars id) (constrained cfg requests id))) =
      leave G cfg requests (id :: ids) grammars := by
  funext j
  unfold leave
  by_cases hj : j = id
  · rw [hj, if_neg hnew, if_pos mem_cons_self, update_self]
  · have hmem : j ∈ id :: ids ↔ j ∈ ids := by simp [hj]
    simp only [hmem, update_of_ne hj]

theorem fillRequest_rollback (hG : Lawful G Valid Validated) (index : Nat)
    (hready : Ready G Valid Validated cfg requests f.grammars spec (id :: ids))
    (hindex : index + numRows spec id ≤ f.bitmask.length) :
    ∃ f' adv, fillRequest G id (draftsOf spec id ++ [-1]) (constrained cfg requests id) index 0 f =
        .ok (f', index + numRows spec id, adv) ∧
      (if 0 < adv then f'.setGrammar id (G.rollback (f'.grammars id) adv) else f') =
        ⟨update f.grammars id (checked G (f.grammars id) (constrained cfg requests id)),
          writeRows f.bitmask index (rowsOf G cfg requests f.grammars spec id)⟩ := by
  have htokens : (draftsOf spec id ++ [-1]).length = numRows spec id := by
    unfold numRows draftsOf
    rw [length_append, length_singleton, Nat.add_comm]
  rw [← htokens] at hindex ⊢
  by_cases hone : (constrained cfg requests id = true → realTokens (draftsOf spec id) = [])
  · -- only the first row is filled by the grammar
    obtain ⟨t, tokens, heq⟩ : ∃ t tokens, draftsOf spec id ++ [-1] = t :: tokens :=
      exists_cons_of_ne_nil (by simp)
    have ht : (constrained cfg requests id && t != -1) = false := by
      cases hc : constrained cfg requests id with
      | false => rfl
      | true =>
        have hreal := hone hc
        rw [← realTokens_append, heq] at hreal
        cases hb : t != -1 with
        | false => rfl
        | true =>
          rw [realTokens_cons hb] at hreal
          cases hreal
    refine ⟨_, 0, ?_, if_neg (Nat.lt_irrefl 0)⟩
    unfold rowsOf
    rw [heq] at hindex ⊢
    exact fillRequest_single id 0 ht hindex
  · rw [Classical.not_imp] at hone
    have hvalidated := hready.validated id mem_cons_self hone.1 hone.2
    obtain ⟨ts, rest, hsplit, _, hts, hrun⟩ := @fillRequest_spec _ G _ _ hG id
      (draftsOf spec id ++ [-1]) (constrained cfg requests id) index 0 f hvalidated.1
      (by
        intro _ hterm
        rw [realTokens_append]
        exact hvalidated.2 hterm)
      hindex
    rw [realTokens_append] at hsplit
    refine ⟨_, _, hrun, ?_⟩
    rw [hG.checked_same hvalidated.1, update_eq_self, Nat.zero_add]
    dsimp only
    rw [update_self]
    cases ts with
    | nil =>
      rw [length_nil, if_neg (Nat.lt_irrefl 0), foldl_nil, update_eq_self]
      rfl
    | cons t ts =>
      have hback := hG.rollback_accepts (f.grammars id) (t :: ts) rest hvalidated.1
        (by rw [hsplit]; exact hvalidated.2 hts.1) (by simp) hts
      unfold Filling.setGrammar
      rw [if_pos (by simp), hback]
      rw [update_idem, update_eq_self]
      rfl

theorem fillSerial_spec (hG : Lawful G Valid Validated) {cfg : Config}
    {spec : Dict ReqId (List Int)} {ids : List ReqId} {requests : Dict ReqId Request}
    {index : Nat} {f : Filling σ}
    (hready : Ready G Valid Validated cfg requests f.grammars spec ids) (hnd : ids.Nodup)
    (hindex : index + (ids.map (numRows spec)).sum ≤ f.bitmask.length) :
    fillSerial G cfg spec ids requests index f = .ok (askAll cfg requests ids,
        ⟨leave G cfg requests ids f.grammars, writeRows f.bitmask index
          (ids.flatMap (rowsOf G cfg requests f.grammars spec))⟩,
        index + (ids.map (numRows spec)).sum) := by
  induction ids generalizing requests index f with
  | nil => rfl
  | cons id ids ih =>
    have hnew := (nodup_cons.mp hnd).1
    have hknown := hready.known id mem_cons_self
    obtain ⟨r, hr⟩ := exists_of_mem_keys hknown
    have hcons : (shouldFillBitmask cfg r).2 = constrained cfg requests id := by
      unfold constrained
      rw [hr]
    rw [map_cons, sum_cons] at hindex
    obtain ⟨f', adv, hrun, hback⟩ := fillRequest_rollback hG index hready (by omega)
    have hrest := @ih (requests.set id (shouldFillBitmask cfg r).1) (index + numRows spec id)
      ⟨update f.grammars id
          (checked G (f.grammars id) (constrained cfg requests id)),
        writeRows f.bitmask index (rowsOf G cfg requests f.grammars spec id)⟩
      (hready.tail hnew _ _) (nodup_cons.mp hnd).2
      (by rw [length_writeRows]; omega)
    have hrows : ids.flatMap (rowsOf G cfg (requests.set id (shouldFillBitmask cfg r).1)
          (update f.grammars id
            (checked G (f.grammars id) (constrained cfg requests id))) spec) =
        ids.flatMap (rowsOf G cfg requests f.grammars spec) := by
      apply flatMap_congr
      intro j hj
      have hne : j ≠ id := fun heq => hnew (heq ▸ hj)
      unfold rowsOf constrained
      rw [get?_set_ne _ _ hne, update_of_ne hne]
    have hask : askAll cfg (requests.set id (shouldFillBitmask cfg r).1) ids =
        askAll cfg requests (id :: ids) := by
      unfold askAll
      rw [foldl_cons, hr]
    unfold fillSerial
    rw [get_ok.mpr hr, ok_bind]
    unfold draftsOf at hrun
    rw [hcons, hrun, ok_bind]
    dsimp only
    rw [hback, hrest, hask, hrows, leave_set hnew, leave_cons hnew, flatMap_cons, writeRows_append,
      length_rowsOf, map_cons, sum_cons, Nat.add_assoc]

/-! ## The parallel path -/

theorem batches_flatten (size : Nat) (batch fills : List Fill) :
    (batches size batch fills).flatten = batch ++ fills := by
  induction fills generalizing batch with
  | nil =>
    unfold batches
    split
    · rename_i h
      rw [h]
      rfl
    · simp
  | cons e fills ih =>
    unfold batches
    split
    · rw [flatten_cons, ih, nil_append, append_assoc]
      rfl
    · rw [ih, append_assoc]
      rfl

def itemsOf (cfg : Config) (requests : Dict ReqId Request) :
    List ReqId → Nat → List Fill
  | [], _ => []
  | id :: ids, index =>
    ⟨id, index, constrained cfg requests id⟩ :: itemsOf cfg requests ids (index + 1)

theorem itemsOf_congr {requests' : Dict ReqId Request}
    (h : ∀ id ∈ ids, requests.get? id = requests'.get? id) (index : Nat) :
    itemsOf cfg requests ids index = itemsOf cfg requests' ids index := by
  induction ids generalizing index with
  | nil => rfl
  | cons id ids ih =>
    have hid := h id mem_cons_self
    unfold itemsOf constrained
    rw [hid, ih fun j hj => h j (mem_cons_of_mem _ hj)]

theorem mem_itemsOf {e : Fill} (h : e ∈ itemsOf cfg requests ids index) :
    e.reqId ∈ ids ∧ index ≤ e.index ∧ e.index < index + ids.length := by
  induction ids generalizing index with
  | nil => cases h
  | cons id ids ih =>
    rw [length_cons]
    obtain rfl | h := mem_cons.mp h
    · refine ⟨mem_cons_self, ?_, ?_⟩
      · exact Nat.le_refl _
      · show index < _
        omega
    · have hih := ih h
      exact ⟨mem_cons_of_mem _ hih.1, by omega, by omega⟩

theorem map_reqId_itemsOf (cfg : Config) (requests : Dict ReqId Request) (ids : List ReqId)
    (index : Nat) : (itemsOf cfg requests ids index).map Fill.reqId = ids := by
  induction ids generalizing index with
  | nil => rfl
  | cons id ids ih =>
    rw [itemsOf, map_cons, ih]

theorem nodup_itemsOf (cfg : Config) (requests : Dict ReqId Request) (ids : List ReqId)
    (index : Nat) : ((itemsOf cfg requests ids index).map Fill.index).Nodup := by
  induction ids generalizing index with
  | nil => exact nodup_nil
  | cons id ids ih =>
    refine nodup_cons.mpr ⟨?_, ih (index + 1)⟩
    intro hmem
    obtain ⟨e, he, heq⟩ := mem_map.mp hmem
    have hle := (mem_itemsOf he).2.1
    have heq : e.index = index := heq
    omega

theorem collectFills_spec {cfg : Config} {ids : List ReqId} {requests : Dict ReqId Request}
    (index : Nat) (hknown : ∀ id ∈ ids, id ∈ requests.keys) (hnd : ids.Nodup) :
    collectFills cfg ids requests index =
      .ok (askAll cfg requests ids, itemsOf cfg requests ids index) := by
  induction ids generalizing requests index with
  | nil => rfl
  | cons id ids ih =>
    have hnew := (nodup_cons.mp hnd).1
    obtain ⟨r, hr⟩ := Option.ne_none_iff_exists'.mp
      ((mem_keys_iff requests id).mp (hknown id mem_cons_self))
    have hcons : constrained cfg requests id = (shouldFillBitmask cfg r).2 := by
      unfold constrained
      rw [hr]
    have hask : askAll cfg (requests.set id (shouldFillBitmask cfg r).1) ids =
        askAll cfg requests (id :: ids) := by
      unfold askAll
      rw [foldl_cons, hr]
    have hsame : ∀ j ∈ ids,
        (requests.set id (shouldFillBitmask cfg r).1).get? j = requests.get? j := by
      intro j hj
      apply get?_set_ne
      rintro rfl
      exact hnew hj
    have hrest := @ih (requests.set id (shouldFillBitmask cfg r).1) (index + 1)
      (by
        intro j hj
        rw [mem_keys_set]
        exact .inr (hknown j (mem_cons_of_mem _ hj)))
      (nodup_cons.mp hnd).2
    unfold collectFills
    rw [get_ok.mpr hr, ok_bind]
    dsimp only
    rw [hrest, ok_bind, hask, itemsOf_congr hsame, itemsOf, hcons]

def fill (G : GrammarOps σ) (f : Filling σ) (e : Fill) : Filling σ :=
  (f.setGrammar e.reqId (checked G (f.grammars e.reqId) e.applyBitmask)).setRow e.index
    (rowAt G (f.grammars e.reqId) e.applyBitmask)

theorem fillBitmasks_spec (hindex : ∀ e ∈ items, e.index < f.bitmask.length) :
    fillBitmasks G f items = .ok (items.foldl (fill G) f) := by
  unfold fillBitmasks
  induction items generalizing f with
  | nil => rfl
  | cons e items ih =>
    rw [foldlM_cons, fillOne_ok (hindex e mem_cons_self), ok_bind, ih]
    · rfl
    · intro e' he'
      show e'.index < (f.bitmask.set e.index _).length
      rw [length_set]
      exact hindex e' (mem_cons_of_mem _ he')

theorem foldl_fill_perm {items' : List Fill} (h : items.Perm items')
    (hindex : (items.map Fill.index).Nodup) (hids : (items.map Fill.reqId).Nodup)
    (f : Filling σ) : items.foldl (fill G) f = items'.foldl (fill G) f := by
  refine h.foldl_eq' ?_ f
  intro e he e' he' f
  by_cases heq : e = e'
  · rw [heq]
  · have hrow : e.index ≠ e'.index := fun h => heq (inj_on_of_nodup_map hindex he he' h)
    have hid : e.reqId ≠ e'.reqId := fun h => heq (inj_on_of_nodup_map hids he he' h)
    unfold fill Filling.setGrammar Filling.setRow
    dsimp only
    rw [update_of_ne hid.symm, update_of_ne hid, set_comm _ _ hrow,
      update_comm hid]

theorem foldl_itemsOf (hnd : ids.Nodup) (index : Nat) (f : Filling σ) :
    (itemsOf cfg requests ids index).foldl (fill G) f =
      ⟨leave G cfg requests ids f.grammars, writeRows f.bitmask index
        (ids.map fun id => rowAt G (f.grammars id) (constrained cfg requests id))⟩ := by
  induction ids generalizing index f with
  | nil => rfl
  | cons id ids ih =>
    have hnew := (nodup_cons.mp hnd).1
    have hrows : ids.map (fun j => rowAt G (update f.grammars id
          (checked G (f.grammars id) (constrained cfg requests id)) j)
          (constrained cfg requests j)) =
        ids.map fun j => rowAt G (f.grammars j) (constrained cfg requests j) := by
      apply map_congr_left
      intro j hj
      have hne : j ≠ id := fun heq => hnew (heq ▸ hj)
      rw [update_of_ne hne]
    rw [itemsOf, foldl_cons, ih (nodup_cons.mp hnd).2]
    unfold fill Filling.setGrammar Filling.setRow
    rw [leave_cons hnew, hrows, map_cons, writeRows]

theorem sum_numRows_le {k : Nat} (ids : List ReqId) (hspec : ∀ id, (draftsOf spec id).length ≤ k) :
    (ids.map (numRows spec)).sum ≤ ids.length * (1 + k) := by
  induction ids with
  | nil => simp
  | cons id ids ih =>
    have hid := hspec id
    have hrows : numRows spec id = 1 + (draftsOf spec id).length := rfl
    rw [map_cons, sum_cons, length_cons, Nat.succ_mul]
    omega

theorem grammarBitmask_spec (hG : Lawful G Valid Validated) {cfg : Config} (ex : Executor)
    {m : Manager σ} {ids : List ReqId} {spec : Dict ReqId (List Int)} (hne : ids ≠ [])
    (hready : Ready G Valid Validated cfg m.requests m.grammars spec ids) (hnd : ids.Nodup)
    (hids : ids.length ≤ cfg.maxNumSeqs)
    (hspec : ∀ id, (draftsOf spec id).length ≤ cfg.numSpeculativeTokens)
    (hbuffer : (allocate cfg m.bitmask).length = cfg.maxNumSeqs * (1 + cfg.numSpeculativeTokens)) :
    grammarBitmask G cfg ex m ids spec =
      .ok (⟨askAll cfg m.requests ids, leave G cfg m.requests ids m.grammars,
          some (writeRows (allocate cfg m.bitmask) 0
            (ids.flatMap (rowsOf G cfg m.requests m.grammars spec)))⟩,
        some (ids.flatMap (rowsOf G cfg m.requests m.grammars spec))) := by
  have hsum := sum_numRows_le ids hspec
  have hmul : ids.length * (1 + cfg.numSpeculativeTokens) ≤
      cfg.maxNumSeqs * (1 + cfg.numSpeculativeTokens) := Nat.mul_le_mul_right _ hids
  have hlen : (ids.flatMap (rowsOf G cfg m.requests m.grammars spec)).length =
      (ids.map (numRows spec)).sum := by
    simp
  unfold grammarBitmask
  rw [if_neg hne]
  dsimp only
  split
  · rename_i hpar
    have hrows : ids.flatMap (rowsOf G cfg m.requests m.grammars spec) =
        ids.map fun id => rowAt G (m.grammars id) (constrained cfg m.requests id) := by
      rw [← flatMap_pure_eq_map]
      apply flatMap_congr
      intro id _
      have hdrafts : draftsOf spec id = [] := by
        have hle := hspec id
        rw [hpar.2] at hle
        exact length_eq_zero_iff.mp (Nat.le_zero.mp hle)
      unfold rowsOf
      rw [hdrafts]
      rfl
    have hperm : (itemsOf cfg m.requests ids 0).Perm
        (ex.order
          (batches cfg.fillBitmaskParallelBatchSize [] (itemsOf cfg m.requests ids 0))) := by
      have h := ex.order_perm
        (batches cfg.fillBitmaskParallelBatchSize [] (itemsOf cfg m.requests ids 0))
      rw [batches_flatten] at h
      exact h.symm
    have hsize : ids.length ≤ (allocate cfg m.bitmask).length := by
      rw [hbuffer, hpar.2]
      omega
    have hitem : ∀ e ∈ ex.order
        (batches cfg.fillBitmaskParallelBatchSize [] (itemsOf cfg m.requests ids 0)),
        e.index < (allocate cfg m.bitmask).length := by
      intro e he
      have hmem := mem_itemsOf (hperm.mem_iff.mpr he)
      omega
    have htake := @take_writeRows (allocate cfg m.bitmask)
      (ids.flatMap (rowsOf G cfg m.requests m.grammars spec)) (by omega)
    have hcount : ids.length =
        (ids.flatMap (rowsOf G cfg m.requests m.grammars spec)).length := by
      rw [hrows, length_map]
    rw [collectFills_spec 0 hready.known hnd, ok_bind]
    rw [fillBitmasks_spec hitem, ok_bind, ← foldl_fill_perm hperm
      (nodup_itemsOf cfg m.requests ids 0)
      (by rw [map_reqId_itemsOf]; exact hnd), foldl_itemsOf hnd]
    rw [← hrows, hcount, htake]
  · have htake := @take_writeRows (allocate cfg m.bitmask)
      (ids.flatMap (rowsOf G cfg m.requests m.grammars spec)) (by omega)
    rw [fillSerial_spec hG (f := ⟨m.grammars, allocate cfg m.bitmask⟩) hready hnd
      (by dsimp only; omega), ok_bind]
    rw [Nat.zero_add, ← hlen, htake]

end VllmCore.StructuredOutput
