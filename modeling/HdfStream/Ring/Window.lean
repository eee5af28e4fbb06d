/-
# What every buffer of the ring holds

The permits of the ring are `TokenRing.Tokens`.  This file is about the CONTENTS: how many
bytes each buffer has in use, and which bytes they are.  `Stored` says it over absolute
positions, as `Tokens` does: block `b` was posted to buffer `b % NR_BUFFERS`, and while it is
neither emptied nor given back the buffer holds exactly that block; a buffer nobody holds and
nothing was posted to is empty.

`Stored` survives what the two sides do to a buffer: the worker fills the buffer it holds
(`Stored.fill`) and posts it (`Stored.post`), the client empties the buffer it holds
(`Stored.empty`) and gives it back (`Stored.give`).  The fill is where the layout matters: the
copy stays inside the worker's own buffer, so every posted block survives it.
-/
import HdfStream.Ring.Model
import Mathlib.Data.List.GetD

namespace HdfStream.Ring

open Memory TokenRing

/-! ## 1. The layout -/

/-- Where `shared_data_populate` puts buffer `j`. -/
def Config.offset (cfg : Config) (j : Nat) : Nat := cfg.headerSize + j * cfg.bufferSize

/-- **Buffers do not overlap.** -/
theorem Config.offset_disjoint (cfg : Config) {i j : Nat} (h : i ≠ j) :
    cfg.offset i + cfg.bufferSize ≤ cfg.offset j ∨ cfg.offset j + cfg.bufferSize ≤
      cfg.offset i := by
  unfold Config.offset
  rcases Nat.lt_or_gt_of_ne h with hlt | hlt
  · have := Nat.mul_le_mul_right cfg.bufferSize (Nat.succ_le_of_lt hlt)
    rw [Nat.succ_mul] at this
    omega
  · have := Nat.mul_le_mul_right cfg.bufferSize (Nat.succ_le_of_lt hlt)
    rw [Nat.succ_mul] at this
    omega

/-- Every header still has the offset it was populated with. -/
def Layout (cfg : Config) (buf : Nat → BufferData) : Prop :=
  ∀ j, (buf j).offset = cfg.offset j

theorem Layout.update {cfg : Config} {buf : Nat → BufferData} (h : Layout cfg buf) {j : Nat}
    {x : BufferData} (hx : x.offset = (buf j).offset) :
    Layout cfg (Function.update buf j x) := by
  intro i
  by_cases hij : i = j
  · subst hij
    rw [Function.update_self, hx, h i]
  · rw [Function.update_of_ne hij, h i]

/-- A new header that agrees with the old one in the field `f` changes nothing `f` sees. -/
theorem comp_update_eq {β : Type} (buf : Nat → BufferData) {j : Nat} {x : BufferData}
    (f : BufferData → β) (h : f x = f (buf j)) : f ∘ Function.update buf j x = f ∘ buf := by
  rw [Function.comp_update, h]
  exact Function.update_eq_self j (f ∘ buf)

/-! ## 2. The contents -/

/-- The bytes buffer `j` holds. -/
def content (cfg : Config) (used : Nat → Nat) (mem : Nat → UInt8) (j : Nat) : List UInt8 :=
  readMem mem (cfg.offset j) (used j)

@[simp] theorem content_length (cfg : Config) (used : Nat → Nat) (mem : Nat → UInt8) (j : Nat) :
    (content cfg used mem j).length = used j := readMem_length _ _ _

/-- `Stored cfg used mem posted c ph em`: what the buffers of the window starting at `c` hold.
`ph` says that the worker holds the buffer at the next position to post, `em` that the client
has emptied the one at `c`. -/
structure Stored (cfg : Config) (used : Nat → Nat) (mem : Nat → UInt8)
    (posted : List (List UInt8)) (c : Nat) (ph em : Bool) : Prop where
  fits : ∀ j, used j ≤ cfg.bufferSize
  block : ∀ b, c ≤ b → b < posted.length → ¬ (b = c ∧ em = true) →
    content cfg used mem (b % cfg.nrBuffers) = posted.getD b []
  free : ∀ b, posted.length ≤ b → b < c + cfg.nrBuffers → ¬ (b = posted.length ∧ ph = true) →
    used (b % cfg.nrBuffers) = 0
  emptied : em = true → used (c % cfg.nrBuffers) = 0

variable {cfg : Config} {used : Nat → Nat} {mem : Nat → UInt8} {posted : List (List UInt8)}
  {c : Nat} {ph em : Bool}

/-- A fresh stream: all buffers empty, nothing posted. -/
theorem Stored.start (hfit : ∀ j, used j ≤ cfg.bufferSize)
    (h : ∀ j, j < cfg.nrBuffers → used j = 0) : Stored cfg used mem [] 0 false false where
  fits := hfit
  block b _ hb _ := absurd hb (by simp)
  free b _ _ _ := h _ (Nat.mod_lt b cfg.nrBuffers_pos)
  emptied h := absurd h (by simp)

/-- Taking a buffer only weakens what is said of it. -/
theorem Stored.hold (h : Stored cfg used mem posted c false em) :
    Stored cfg used mem posted c true em where
  fits := h.fits
  block := h.block
  free b hb hb' _ := h.free b hb hb' (by simp)
  emptied := h.emptied

/-- The buffer the worker has just taken is empty. -/
theorem Stored.used_next (h : Stored cfg used mem posted c false em)
    (hwin : posted.length < c + cfg.nrBuffers) : used (posted.length % cfg.nrBuffers) = 0 :=
  h.free _ (Nat.le_refl _) hwin (by simp)

/-- A buffer whose `used` and bytes are unchanged holds what it held. -/
theorem content_congr {used' : Nat → Nat} {mem' : Nat → UInt8} {j : Nat} (hu : used' j = used j)
    (hfit : used j ≤ cfg.bufferSize)
    (hm : ∀ x, cfg.offset j ≤ x → x < cfg.offset j + cfg.bufferSize → mem' x = mem x) :
    content cfg used' mem' j = content cfg used mem j := by
  unfold content
  rw [hu]
  exact readMem_congr fun x h1 h2 => hm x h1 (by omega)

/-! ## 3. What the worker does to its buffer -/

/-- **The worker fills the buffer it holds.**  Bytes outside that buffer stay as they are. -/
theorem Stored.fill (h : Stored cfg used mem posted c true em) (hcp : c ≤ posted.length)
    (hwin : posted.length < c + cfg.nrBuffers) (hem : em = true → c < posted.length)
    {u : Nat} (hu : u ≤ cfg.bufferSize) {mem' : Nat → UInt8}
    (hm : ∀ x, (x < cfg.offset (posted.length % cfg.nrBuffers) ∨
      cfg.offset (posted.length % cfg.nrBuffers) + cfg.bufferSize ≤ x) → mem' x = mem x) :
    Stored cfg (Function.update used (posted.length % cfg.nrBuffers) u) mem' posted c true em where
  fits j := by
    by_cases hj : j = posted.length % cfg.nrBuffers
    · subst hj
      simpa using hu
    · rw [Function.update_of_ne hj]
      exact h.fits j
  block b hb hb' hne := by
    -- the filled buffer is at the end of the window, the block at `b` before it
    have hslot : b % cfg.nrBuffers ≠ posted.length % cfg.nrBuffers := fun e => by
      have := window_mod_inj hb (by omega) hcp hwin e
      omega
    rw [← h.block b hb hb' hne]
    refine content_congr (Function.update_of_ne hslot _ _) (h.fits _) fun x h1 h2 => hm x ?_
    rcases cfg.offset_disjoint hslot with hd | hd <;> omega
  free b hb hb' hne := by
    have hbp : b ≠ posted.length := fun e => hne ⟨e, rfl⟩
    rw [update_window used u hcp hwin (by omega) hb' hbp]
    exact h.free b hb hb' hne
  emptied he := by
    have := hem he
    rw [update_window used u hcp hwin (Nat.le_refl c) (by omega) (by omega)]
    exact h.emptied he

/-- **The worker posts the buffer it holds**: its contents become the next block. -/
theorem Stored.post (h : Stored cfg used mem posted c true em) :
    Stored cfg used mem (posted ++ [content cfg used mem (posted.length % cfg.nrBuffers)]) c
      false em where
  fits := h.fits
  block b hb hb' hne := by
    rw [List.length_append, List.length_singleton] at hb'
    rcases Nat.lt_or_ge b posted.length with hlt | hge
    · rw [List.getD_append _ _ _ _ hlt]
      exact h.block b hb hlt hne
    · have : b = posted.length := by omega
      subst this
      simp [List.getD_eq_getElem?_getD]
  free b hb hb' _ := by
    rw [List.length_append, List.length_singleton] at hb
    exact h.free b (by omega) hb' (by omega)
  emptied := h.emptied

/-! ## 4. What the client does to its buffer -/

/-- The client sets `used` of the buffer it holds to zero. -/
theorem Stored.empty (h : Stored cfg used mem posted c ph false) (hc : c < posted.length)
    (hwin : posted.length ≤ c + cfg.nrBuffers) :
    Stored cfg (Function.update used (c % cfg.nrBuffers) 0) mem posted c ph true where
  fits j := by
    by_cases hj : j = c % cfg.nrBuffers
    · subst hj
      simp
    · rw [Function.update_of_ne hj]
      exact h.fits j
  block b hb hb' hne := by
    have hbc : b ≠ c := fun e => hne ⟨e, rfl⟩
    rw [← h.block b hb hb' (by simp)]
    unfold content
    rw [update_window used 0 (Nat.le_refl c) (by omega) hb (by omega) hbc]
  free b hb hb' hne := by
    rw [update_window used 0 (Nat.le_refl c) (by omega) (by omega) hb' (by omega)]
    exact h.free b hb hb' hne
  emptied _ := Function.update_self _ _ _

/-- The client gives the emptied buffer back: its slot is free again, one window later. -/
theorem Stored.give (h : Stored cfg used mem posted c ph true) :
    Stored cfg used mem posted (c + 1) ph false where
  fits := h.fits
  block b hb hb' _ := h.block b (by omega) hb' (by omega)
  free b hb hb' hne := by
    by_cases hlast : b = c + cfg.nrBuffers
    · subst hlast
      rw [Nat.add_mod_right]
      exact h.emptied rfl
    · exact h.free b hb (by omega) hne
  emptied he := absurd he (by simp)

end HdfStream.Ring
