import VllmCore.Support.Py
/-!
# Packed messages

The msgpack data model, a packer that loses nothing of it, and the list of
buffers a message is sent as: the packed value first, the raw buffers it refers
to by their index after it.
-/

namespace VllmCore.Support

open List

/-- The msgpack data model.  It has no tuples; `F` is the type of floats. -/
inductive Msg (F : Type)
  | nil
  | bool (b : Bool)
  | int (n : Int)
  | float (x : F)
  | str (s : String)
  | ext (code : Nat) (data : List UInt8)
  | array (xs : List (Msg F))
  | map (kvs : List (String × Msg F))

structure Msgpack (F W : Type) where
  encode : Msg F → W
  decode : W → Py (Msg F)
  lossless : ∀ m, decode (encode m) = .ok m

/-- One buffer of a message: a packed value, or raw bytes. -/
inductive Frame (W : Type)
  | packed (w : W)
  | raw (data : List UInt8)

variable {F W : Type}

/-- The raw buffers stashed so far stand in `bufs` where they were stashed; the
first buffer is the packed value itself. -/
def Stored (aux bufs : List (Frame W)) : Prop :=
  ∀ i, 0 < i → i < aux.length → bufs[i]? = aux[i]?

variable {aux more bufs : List (Frame W)} {α β : Type}

theorem Stored.of_append (h : Stored (aux ++ more) bufs) : Stored aux bufs := by
  intro i hpos hlt
  rw [h i hpos (by rw [length_append]; omega), getElem?_append_left hlt]

theorem Stored.get {b : Frame W} (hpos : 0 < aux.length)
    (h : Stored (aux ++ b :: more) bufs) : bufs[aux.length]? = some b := by
  rw [h _ hpos (by simp)]
  simp

/-! ## Traversals that stash buffers -/

/-- The state of an encoder: the buffers of the message it is building. -/
abbrev Stash (W : Type) := StateM (List (Frame W))

def Stash.each {α β : Type} (f : α → Stash W β) : List α → Stash W (List β)
  | [] => pure []
  | x :: xs => do
    let y ← f x
    let ys ← Stash.each f xs
    return y :: ys

theorem Stash.run_pure (a : α) (aux : List (Frame W)) :
    (pure a : Stash W α).run aux = (a, aux) := rfl

theorem Stash.run_bind (x : Stash W α) (f : α → Stash W β) (aux : List (Frame W)) :
    (x >>= f).run aux = (f (x.run aux).1).run (x.run aux).2 := rfl

/-- `e` stashes the buffers `added`, and what it builds, once packed and sent with
them, is read back as `y`. -/
def RoundTrips {α β μ : Type} (pack : α → μ) (e : Stash W α)
    (d : List (Frame W) → μ → Py β) (y : β) (added : List (Frame W)) : Prop :=
  ∀ aux, 0 < aux.length → (e.run aux).2 = aux ++ added ∧
    ∀ bufs, Stored (aux ++ added) bufs → d bufs (pack (e.run aux).1) = .ok y

theorem RoundTrips.each {γ μ : Type} {pack : γ → μ} {f : α → Stash W γ}
    {d : List (Frame W) → μ → Py β} {g : α → β} {added : α → List (Frame W)} {xs : List α}
    (h : ∀ x ∈ xs, RoundTrips pack (f x) d (g x) (added x)) :
    ∀ aux, 0 < aux.length →
      ((Stash.each f xs).run aux).2 = aux ++ xs.flatMap added ∧
      ∀ bufs, Stored (aux ++ xs.flatMap added) bufs →
        (((Stash.each f xs).run aux).1.map pack).mapM (d bufs) = .ok (xs.map g) := by
  induction xs with
  | nil =>
    intro aux _
    exact ⟨(append_nil aux).symm, fun _ _ => rfl⟩
  | cons x xs ih =>
    intro aux hpos
    obtain ⟨hadded, hread⟩ := h x (by simp) aux hpos
    have hpos' : 0 < (aux ++ added x).length := by
      rw [length_append]
      omega
    obtain ⟨hadded', hread'⟩ := ih (fun y hy => h y (by simp [hy])) (aux ++ added x) hpos'
    simp only [Stash.each, Stash.run_bind, Stash.run_pure, hadded, flatMap_cons]
    rw [← append_assoc]
    refine ⟨hadded', ?_⟩
    intro bufs hbufs
    simp only [map_cons, mapM_cons]
    rw [hread bufs hbufs.of_append, ok_bind, hread' bufs hbufs]
    rfl

end VllmCore.Support
