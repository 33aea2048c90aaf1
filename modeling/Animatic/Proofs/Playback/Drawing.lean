import Animatic.Proofs.Geometry.Loops
import Animatic.Proofs.Geometry.Sampling
import Animatic.Scene.Playback
import Mathlib.Data.List.Forall2

/-!
# Drawing

What is drawn of a primitive is the front part of each of its loops. The count of points is rounded
up, so that of every loop something is shown as soon as anything is revealed at all.

* `Primitive.visibleLoops_prefixes`, `Primitive.visibleLoops_eq_nil`: what is visible of a
  primitive.
* `DrawCall.Shows`: a draw call as the picture of a primitive.
* `Scene.visible`: the primitives that are to be drawn; `Scene.drawCalls_eq`: they are.
* `Playback.run_render`: a scene is drawn by one call for each visible primitive.
-/

namespace Animatic

open Number
open Float.Model (Format UnpackedFloat)
open Float.Model.UnpackedFloat

/-! ## How much is shown -/

namespace Number

theorem ceilScaled_pos {m : ℕ} (hm : 0 < m) (e : ℤ) : 0 < ceilScaled m e := by
  unfold ceilScaled
  split
  · rw [Nat.shiftLeft_eq]
    exact Nat.mul_pos hm (Nat.two_pow_pos _)
  · rw [Nat.shiftRight_eq_div_pow]
    have hpow := Nat.two_pow_pos (-e).toNat
    exact Nat.div_pos (by change 2 ^ _ ≤ m + (2 ^ _ - 1); omega) hpow

/-- Whether a value is above zero, be it infinite. -/
def AboveZero (f : UnpackedFloat) : Prop :=
  f = .infinity .positive ∨ ∃ m e hm, f = .finite .positive m e hm

theorem aboveZero_of_value_pos {f : UnpackedFloat} (h : 0 < value f) : AboveZero f :=
  .inr (finite_of_value_pos h)

theorem aboveZero_exact32 {x : Float32} (h : 0 < x) : AboveZero (exact32 x) := by
  have hnumber := (numbers_of_lt32 h).2
  rw [pos32_iff_rank hnumber, rank32] at h
  cases hexact : exact32 x with
  | notANumber => exact absurd hexact (isNaN32_eq_false.mp hnumber)
  | zero s | infinity s | finite s m e =>
    rw [hexact] at h
    cases s with
    | negative => simp only [signedWeight, Sign.apply] at h; omega
    | positive => first | exact .inl rfl | exact .inr ⟨m, e, _, rfl⟩ | exact absurd h (lt_irrefl 0)

theorem ceilWithin_pos {limit : ℕ} (hlimit : 0 < limit) {f : UnpackedFloat} (h : AboveZero f) :
    0 < ceilWithin limit f := by
  obtain rfl | ⟨m, e, hm, rfl⟩ := h
  · exact hlimit
  · exact lt_min hlimit (ceilScaled_pos hm e)

/-- A word keeps a value above zero. -/
private theorem aboveZero_word {f : UnpackedFloat} (hc : Canonical .binary32 f) (h : AboveZero f) :
    AboveZero (unpack .binary32 (pack .binary32 f)) := by
  obtain rfl | ⟨m, e, hm, rfl⟩ := h
  · exact .inl (unpack_pack trivial trivial)
  · obtain ⟨-, hword⟩ | ⟨-, hword⟩ | ⟨hlow, -⟩ := unpack_pack_cases wide32 hc rfl
    · exact .inr ⟨m, e, hm, hword⟩
    · exact .inl hword
    · have hsize : (0 : ℚ) ≤ m * 2 ^ e := by positivity
      rw [value, signed] at hlow
      linarith [maxFinite_nonneg .binary32]

/-- A positive whole number times something above zero is above zero. -/
private theorem aboveZero_ofNat32_mul {n : ℕ} (hn : 0 < n) {r : Float32} (hr : 0 < r) :
    AboveZero (exact32 (Float32.ofNat n * r)) := by
  have hcanonical := canonical_exact32 r
  have hcanonical' := canonical_exact32 (Float32.ofNat n)
  have habove := aboveZero_exact32 hr
  rw [exact32_mul]
  rcases one_le_ofNat32 hn with hlong | ⟨hfinite, hone⟩
  · rw [hlong]
    obtain h | ⟨m, e, hm, h⟩ := habove <;> rw [h] <;> exact .inl (unpack_pack trivial trivial)
  · obtain h | ⟨m, e, hm, h⟩ := habove
    · obtain hcount | ⟨_, _, _, hcount⟩ :=
        aboveZero_of_value_pos (zero_lt_one.trans_le hone) <;>
        rw [h, hcount] <;> exact .inl (unpack_pack trivial trivial)
    · rw [h] at hcanonical ⊢
      have hrounds := rounds_mul hfinite rfl hcanonical' hcanonical
      have hpos := value_pos hm e
      -- the product is no smaller than the share, which is a number of the format
      have hlarge := hrounds.le_of_ge _ (representable_value hcanonical)
        (le_mul_of_one_le_left hpos.le hone)
      exact aboveZero_word hrounds.canonical (aboveZero_of_value_pos (hpos.trans_le hlarge))

/-- No share of anything is rounded up to more than nothing. -/
private theorem ceilWithin_zero_share (n limit : ℕ) {r : Float32} (hr : ∃ s, exact32 r = .zero s) :
    ceilWithin limit (exact32 (Float32.ofNat n * r)) = 0 := by
  obtain ⟨s, hzero⟩ := hr
  rw [exact32_mul, hzero]
  have hkept (t : Sign) : unpack .binary32 (pack .binary32 (.zero t)) = .zero t :=
    unpack_pack trivial trivial
  have hnone : unpack .binary32 (pack .binary32 .notANumber) = .notANumber :=
    unpack_pack trivial trivial
  cases exact32 (Float32.ofNat n) with
  | zero t | finite t => rw [mul, hkept]; rfl
  | infinity | notANumber => rw [mul, hnone]; rfl

private theorem greatest32_of_pos {r : Float32} (hr : 0 < r) : greatest32 r 0 = r := by
  have hnumber := (numbers_of_lt32 hr).2
  rw [pos32_iff_rank hnumber] at hr
  have hbelow : ¬ r < 0 := by
    rw [neg32_iff_rank hnumber]
    omega
  rw [greatest32, hnumber, if_neg Bool.false_ne_true, if_neg hbelow]

private theorem greatest32_of_not_pos {r : Float32} (hr : ¬ 0 < r) :
    ∃ s, exact32 (greatest32 r 0) = .zero s := by
  rw [greatest32]
  split
  · exact ⟨.positive, rfl⟩
  · rename_i hnumber
    rw [Bool.not_eq_true] at hnumber
    split
    · exact ⟨.positive, rfl⟩
    · rename_i hbelow
      rw [pos32_iff_rank hnumber] at hr
      rw [neg32_iff_rank hnumber] at hbelow
      exact exact32_of_rank32_eq_zero hnumber (by omega)

end Number

/-! ## Primitives -/

namespace Primitive

variable {p : Primitive}

/-- Something of a primitive is visible: it is not wholly concealed, and something stands between
the separators of its outline. -/
def IsVisible (p : Primitive) : Prop :=
  0 < p.reveal ∧ (p.outline.splitOnP Point.isSeparator).filter (!·.isEmpty) ≠ []

instance (p : Primitive) : Decidable p.IsVisible := inferInstanceAs (Decidable (_ ∧ _))

/-- Of every loop of a primitive that is not wholly concealed the front is shown. -/
theorem visibleLoops_prefixes (h : 0 < p.reveal) :
    List.Forall₂ (fun shown loop => shown <+: loop ∧ shown ≠ []) p.visibleLoops
      p.outline.loops := by
  have hloops : ∀ loop ∈ p.outline.loops, loop ≠ [] := fun loop hloop =>
    (Outline.isLoop_of_mem_loops hloop).1
  unfold visibleLoops
  split
  · exact List.forall₂_same.mpr fun loop hloop => ⟨List.prefix_rfl, hloops loop hloop⟩
  · rw [greatest32_of_pos h]
    dsimp only
    generalize p.outline.loops = loops at hloops
    have hshown : ∀ loop ∈ loops, loop.take (ceilWithin longLimit
        (exact32 (Float32.ofNat loop.length * p.reveal))) ≠ [] := by
      intro loop hloop
      have hlength := List.length_pos_iff.mpr (hloops loop hloop)
      have hlimit : 0 < longLimit := by decide
      have hcount := ceilWithin_pos hlimit (aboveZero_ofNat32_mul hlength h)
      rw [ne_eq, List.take_eq_nil_iff]
      rintro (hnone | hnil)
      · omega
      · exact hloops loop hloop hnil
    have hall : ∀ shown ∈ loops.map (fun loop => loop.take (ceilWithin longLimit
        (exact32 (Float32.ofNat loop.length * p.reveal)))), (!shown.isEmpty) = true := by
      intro shown hmem
      obtain ⟨loop, hloop, rfl⟩ := List.mem_map.mp hmem
      simpa using hshown loop hloop
    rw [List.filter_eq_self.mpr hall, List.forall₂_map_left_iff]
    exact List.forall₂_same.mpr fun loop hloop => ⟨List.take_prefix _ _, hshown loop hloop⟩

/-- What is shown belongs to a loop. -/
theorem exists_of_mem_visibleLoops (h : 0 < p.reveal) {shown : List Point}
    (hshown : shown ∈ p.visibleLoops) : ∃ loop ∈ p.outline.loops, shown <+: loop := by
  have hprefixes := visibleLoops_prefixes h
  generalize p.visibleLoops = all at hshown hprefixes
  generalize p.outline.loops = loops at hprefixes
  induction hprefixes with
  | nil => cases hshown
  | @cons first loop others rest hfirst _ ih =>
    rcases List.mem_cons.mp hshown with rfl | hshown
    · exact ⟨loop, List.mem_cons_self, hfirst.1⟩
    · obtain ⟨found, hfound, hfront⟩ := ih hshown
      exact ⟨found, List.mem_cons_of_mem loop hfound, hfront⟩

/-- Of a primitive that is wholly concealed nothing is shown. -/
theorem visibleLoops_eq_nil (h : ¬ 0 < p.reveal) : p.visibleLoops = [] := by
  have hreveal : ¬ 1 ≤ p.reveal := by
    intro hone
    have hnumber := (numbers_of_le32 hone).2
    have hrank : rank32 1 ≤ rank32 p.reveal := (le32_iff_rank (by decide) hnumber).mp hone
    have hpos : 0 < rank32 1 := by decide
    exact h ((pos32_iff_rank hnumber).mpr (by omega))
  have hzero := greatest32_of_not_pos h
  unfold visibleLoops
  rw [if_neg hreveal]
  dsimp only
  rw [List.filter_eq_nil_iff]
  intro shown hshown
  obtain ⟨loop, -, rfl⟩ := List.mem_map.mp hshown
  simp [ceilWithin_zero_share _ _ hzero]

theorem visibleLoops_ne_nil_iff : p.visibleLoops ≠ [] ↔ p.IsVisible := by
  by_cases h : 0 < p.reveal
  · have hlength := (visibleLoops_prefixes h).length_eq
    rw [IsVisible, and_iff_right h, ← Outline.loops_eq_splitOnP, ne_eq, ne_eq,
      ← List.length_eq_zero_iff, hlength, List.length_eq_zero_iff]
  · simp [visibleLoops_eq_nil h, IsVisible, h]

end Primitive

/-! ## Draw calls -/

/-- A draw call is the picture of a primitive, whose loops are what stands between separators. -/
structure DrawCall.Shows (call : DrawCall) (p : Primitive) : Prop where
  transform : call.transform = p.transform
  color : call.color = p.color
  mode : call.mode = p.fillMode
  /-- The front of each loop is shown, in the order of the loops. -/
  loops : List.Forall₂ (fun shown loop => shown <+: loop ∧ shown ≠ []) call.loops
    ((p.outline.splitOnP Point.isSeparator).filter (!·.isEmpty))
  /-- What is wholly revealed is shown whole. -/
  whole : 1 ≤ p.reveal →
    call.loops = (p.outline.splitOnP Point.isSeparator).filter (!·.isEmpty)
  points : ∀ shown ∈ call.loops, ∀ point ∈ shown, point.isSeparator = false

/-- A draw call with all that is visible of a primitive. -/
def Primitive.picture (p : Primitive) : DrawCall :=
  ⟨p.visibleLoops, p.transform, p.color, p.fillMode⟩

theorem Primitive.picture_shows {p : Primitive} (h : p.IsVisible) : p.picture.Shows p where
  transform := rfl
  color := rfl
  mode := rfl
  loops := by
    rw [← Outline.loops_eq_splitOnP]
    exact visibleLoops_prefixes h.1
  whole hwhole := by
    rw [← Outline.loops_eq_splitOnP]
    exact if_pos hwhole
  points shown hshown point hpoint := by
    obtain ⟨loop, hloop, hfront⟩ := exists_of_mem_visibleLoops h.1 hshown
    exact (Outline.isLoop_of_mem_loops hloop).2 point (hfront.subset hpoint)

theorem Primitive.drawCall?_eq (p : Primitive) :
    p.drawCall? = if p.IsVisible then some p.picture else none := by
  by_cases h : p.IsVisible
  · have hloops := visibleLoops_ne_nil_iff.mpr h
    simp [drawCall?, picture, hloops, h]
  · have hloops := not_not.mp (visibleLoops_ne_nil_iff.not.mpr h)
    simp [drawCall?, hloops, h]

theorem Outline.pointCount_eq_length (loops : List (List Point)) :
    pointCount loops = loops.flatten.length := by
  induction loops with
  | nil => rfl
  | cons loop others ih => rw [pointCount_cons, ih, List.flatten_cons, List.length_append]

/-- The points of some draw calls. -/
def drawnPoints (calls : List DrawCall) : List Point := (calls.flatMap DrawCall.loops).flatten

theorem vertexCount_eq_length (calls : List DrawCall) :
    vertexCount calls = (drawnPoints calls).length := by
  induction calls with
  | nil => rfl
  | cons call rest ih =>
    have hcons : vertexCount (call :: rest) =
        Outline.pointCount call.loops + vertexCount rest := rfl
    simp [hcons, ih, Outline.pointCount_eq_length, drawnPoints]

/-! ## Scenes -/

/-- The primitives of which something is visible, in draw order: those that are owned under the
displayed identities. -/
def Scene.visible (scene : Scene) : List Primitive :=
  (scene.display.filterMap scene.get?).filter (·.IsVisible)

/-- What a scene goes through to draw is what it owns of what it displays. -/
theorem Scene.map_snd_displayed (scene : Scene) :
    scene.displayed.map Prod.snd = scene.display.filterMap scene.get? := by
  rw [displayed, List.map_filterMap]
  refine List.filterMap_congr fun id _ => ?_
  cases scene.get? id with
  | none => rfl
  | some p => rfl

theorem Scene.drawCalls_eq (scene : Scene) :
    scene.drawCalls = scene.visible.map Primitive.picture := by
  rw [drawCalls, visible, ← map_snd_displayed]
  induction scene.displayed with
  | nil => rfl
  | cons entry rest ih =>
    have hcall := Primitive.drawCall?_eq entry.2
    by_cases hvisible : entry.2.IsVisible
    · rw [if_pos hvisible] at hcall
      simpa [hcall, hvisible] using ih
    · rw [if_neg hvisible] at hcall
      simpa [hcall, hvisible] using ih

theorem Scene.drawCalls_show (scene : Scene) :
    List.Forall₂ DrawCall.Shows scene.drawCalls scene.visible := by
  rw [drawCalls_eq, List.forall₂_map_left_iff]
  refine List.forall₂_same.mpr fun p hp => Primitive.picture_shows ?_
  exact of_decide_eq_true (List.mem_filter.mp hp).2

theorem Scene.drawnPoints_drawCalls (scene : Scene) :
    drawnPoints scene.drawCalls = (scene.visible.flatMap Primitive.visibleLoops).flatten := by
  rw [drawnPoints, drawCalls_eq, List.flatMap_map]
  rfl

/-- Drawing a scene makes one call for each displayed primitive of which something is visible, in
draw order, and changes nothing but the log. Something is visible of a primitive if it has a loop
and is not wholly concealed. -/
theorem Playback.run_render {σ : Type} (world : World σ) : ∃ calls,
    (render : Action σ (List DrawCall)).run world =
      .ok (calls, { world with log := world.log ++ (calls.map DrawCall.logEntry).toArray }) ∧
    List.Forall₂ DrawCall.Shows calls world.scene.visible ∧
    (∀ p : Primitive, p.IsVisible ↔ p.visibleLoops ≠ []) ∧
    vertexCount calls = (drawnPoints calls).length :=
  ⟨world.scene.drawCalls, rfl, world.scene.drawCalls_show,
    fun _ => Primitive.visibleLoops_ne_nil_iff.symm, vertexCount_eq_length _⟩

end Animatic
