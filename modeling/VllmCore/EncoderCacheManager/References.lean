import VllmCore.EncoderCacheManager.Slots
import VllmCore.Scheduler.Schedule
import VllmCore.Support.Slices
/-!
# References to encoder outputs

A request takes references to its own inputs only, and `free` takes all of them back.
-/

namespace VllmCore

open List Support Dict

variable {D : Type} {r : Request D} {i : Nat}

theorem Request.mmHash_mem {k : MmHash} (h : r.mmHash i = .ok k) :
    ∃ f, r.mmFeatures[i]? = some f ∧ f.identifier = k := by
  unfold Request.mmHash at h
  split at h
  next f hf => exact ⟨f, hf, pure_ok.mp h⟩
  · cases h

namespace EncoderCacheManager

variable {m m' : EncoderCacheManager} {k : MmHash}

/-- The requests that hold a reference. -/
def referrers (m : EncoderCacheManager) (h : MmHash) : List ReqId := (m.cached.get? h).getD []

theorem referrers_set {ids : List ReqId} (hm : m'.cached = m.cached.set k ids) (h : MmHash) :
    m'.referrers h = if h = k then ids else m.referrers h := by
  unfold referrers
  rw [hm, get?_set]
  split <;> rfl

end EncoderCacheManager

namespace EncoderCache

variable {c c₁ c' : EncoderCache}

def References : EncoderCache → ReqId → MmHash → Prop
  | .encoder m, rid, h => rid ∈ m.referrers h
  | .encoderDecoder _, _, _ => False

def Inputs (r : Request D) (h : MmHash) : Prop := ∃ f ∈ r.mmFeatures, f.identifier = h

def NoneNew (c c' : EncoderCache) : Prop := ∀ rid h, c'.References rid h → c.References rid h

def Adds (r : Request D) (c c' : EncoderCache) : Prop :=
  ∀ rid h, c'.References rid h → c.References rid h ∨ rid = r.requestId ∧ Inputs r h

def KeepsOthers (r : Request D) (c c' : EncoderCache) : Prop :=
  ∀ rid h, rid ≠ r.requestId → c.References rid h → c'.References rid h

theorem NoneNew.refl (c : EncoderCache) : NoneNew c c := fun _ _ h => h

theorem NoneNew.adds (h : NoneNew c c') : Adds r c c' := fun rid k hk => .inl (h rid k hk)

theorem Adds.trans (h : Adds r c c₁) (h' : Adds r c₁ c') : Adds r c c' := by
  intro rid k hk
  rcases h' rid k hk with hk | hk
  · exact h rid k hk
  · exact .inr hk

theorem encoderDecoder_noneNew {d d' : EncoderDecoderCacheManager} :
    NoneNew (.encoderDecoder d) (.encoderDecoder d') := fun _ _ h => h

theorem freeEncoderInput_spec (h : c.freeEncoderInput r i = .ok c') :
    NoneNew c c' ∧ KeepsOthers r c c' ∧
      ∀ f, r.mmFeatures[i]? = some f → ¬c'.References r.requestId f.identifier := by
  cases c with
  | encoderDecoder d =>
    obtain ⟨d', _, rfl⟩ := map_ok.mp h
    exact ⟨encoderDecoder_noneNew, fun _ _ _ h => h, fun _ _ h => h⟩
  | encoder m =>
    obtain ⟨m', hm, rfl⟩ := map_ok.mp h
    simp only [EncoderCacheManager.freeEncoderInput, bind_ok] at hm
    obtain ⟨k, hk, hm⟩ := hm
    obtain ⟨f₀, hf₀, hid⟩ := Request.mmHash_mem hk
    have hrefs : ∀ h, m'.referrers h =
        if h = k then (m.referrers k).filter (· ≠ r.requestId) else m.referrers h := by
      split at hm
      next hempty =>
        intro h
        rw [← pure_ok.mp hm]
        split
        next heq =>
          rw [heq]
          change (m.referrers k).isEmpty = true at hempty
          rw [isEmpty_iff.mp hempty]
          rfl
        · rfl
      · split at hm
        · simp only [bind_ok, pure_ok] at hm
          obtain ⟨_, _, rfl⟩ := hm
          exact EncoderCacheManager.referrers_set rfl
        · rw [← pure_ok.mp hm]
          exact EncoderCacheManager.referrers_set rfl
    refine ⟨fun rid h hh => ?_, fun rid h hne hh => ?_, fun f hf hh => ?_⟩
    · change rid ∈ m'.referrers h at hh
      rw [hrefs] at hh
      split at hh
      next heq => exact heq ▸ (mem_filter.mp hh).1
      · exact hh
    · change rid ∈ m'.referrers h
      rw [hrefs]
      split
      next heq => exact mem_filter.mpr ⟨heq ▸ hh, by simpa using hne⟩
      · exact hh
    · obtain rfl : f₀ = f := Option.some.inj (hf₀.symm.trans hf)
      change r.requestId ∈ m'.referrers _ at hh
      rw [hrefs, if_pos hid] at hh
      simpa using (mem_filter.mp hh).2

theorem foldlM_freeEncoderInput_spec {ids : List Nat}
    (h : ids.foldlM (freeEncoderInput r) c = .ok c') :
    NoneNew c c' ∧ KeepsOthers r c c' ∧
      ∀ i ∈ ids, ∀ f, r.mmFeatures[i]? = some f → ¬c'.References r.requestId f.identifier := by
  refine ⟨?_, ?_, foldlM_establishes
    (P := fun i c => ∀ f, r.mmFeatures[i]? = some f → ¬c.References r.requestId f.identifier)
    (fun _ _ _ _ hclear hstep f hf hh => hclear f hf ((freeEncoderInput_spec hstep).1 _ _ hh))
    (fun _ _ _ hstep => (freeEncoderInput_spec hstep).2.2) h⟩
  · exact foldlM_inv (P := NoneNew c) (fun _ _ _ _ hc hstep rid k hk =>
      hc rid k ((freeEncoderInput_spec hstep).1 rid k hk)) (.refl c) h
  · exact foldlM_inv (P := KeepsOthers r c) (fun _ _ _ _ hc hstep rid k hne hk =>
      (freeEncoderInput_spec hstep).2.1 rid k hne (hc rid k hne hk)) (fun _ _ _ hk => hk) h

theorem foldlM_encoder {α : Type} {f : EncoderCache → α → Py EncoderCache}
    {g : EncoderCacheManager → α → Py EncoderCacheManager}
    (h : ∀ m x, f (.encoder m) x = .encoder <$> g m x) (xs : List α) (m : EncoderCacheManager) :
    xs.foldlM f (.encoder m) = .encoder <$> xs.foldlM g m := by
  induction xs generalizing m with
  | nil => rfl
  | cons x xs ih =>
    rw [foldlM_cons, foldlM_cons, h]
    cases g m x with
    | error e => rfl
    | ok m' => exact ih m'

end EncoderCache

end VllmCore
