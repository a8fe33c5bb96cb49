import Bi100.Vision.Layout
import Bi100.Lib.Slices
import Mathlib.Algebra.Order.Field.Rat
import Mathlib.Data.List.Fold
import Mathlib.Data.List.MinMax
import Mathlib.Data.Rat.Floor

/-!
# The rows of both embeddings are in the order of the windows

- `patches`: the patches of some grids: frame after frame, window after window, each window by rows.
- `windowMajor_elem`: the element of a patch after `reshape` and `permute`.
- `absolutePosEmb_eq`, `posIds_eq`: both embeddings have a row for each of the `patches`.
- `layouts_agree`: all of this, with the number of windows of an image as its number of tokens.
-/

namespace Bi100.Vision

open Py

/-! ## Patches and windows -/

/-- A window of `mergeSize * mergeSize` patches. -/
structure Window where
  image : Nat
  grid : Grid
  frame : Nat
  row : Nat
  col : Nat
deriving DecidableEq, Repr

structure Patch where
  image : Nat
  grid : Grid
  frame : Nat
  i : Nat
  j : Nat
deriving DecidableEq, Repr

variable {m : Nat}

/-- The patches of a window, by rows. -/
def Window.patches (m : Nat) (win : Window) : List Patch :=
  (List.range m).flatMap fun x => (List.range m).map fun y =>
    ⟨win.image, win.grid, win.frame, win.row * m + x, win.col * m + y⟩

/-- The windows of an image, by frames and rows. -/
def gridWindows (m image : Nat) (g : Grid) : List Window :=
  (List.range g.t).flatMap fun frame => (List.range (g.h / m)).flatMap fun row =>
    (List.range (g.w / m)).map fun col => ⟨image, g, frame, row, col⟩

/-- The windows of some images, numbered from `start` on. -/
def windowsFrom (m start : Nat) (grids : List Grid) : List Window :=
  (grids.zipIdx start).flatMap fun (g, image) => gridWindows m image g

def windows (m : Nat) (grids : List Grid) : List Window := windowsFrom m 0 grids

def patches (m : Nat) (grids : List Grid) : List Patch := (windows m grids).flatMap (Window.patches m)

/-- The patch of an index of a grid in windows. -/
def patchAt (m image : Nat) (g : Grid) (idx : List Nat) : Patch :=
  ⟨image, g, idx.getD 0 0, idx.getD 1 0 * m + idx.getD 3 0, idx.getD 2 0 * m + idx.getD 4 0⟩

/-- The shape of a grid in windows. -/
def Grid.windowShape (g : Grid) (m : Nat) : List Nat := [g.t, g.h / m, g.w / m, m, m]

theorem gridWindows_patches (image : Nat) (g : Grid) :
    (gridWindows m image g).flatMap (Window.patches m) =
      (indices (g.windowShape m)).map (patchAt m image g) := by
  unfold gridWindows Window.patches Grid.windowShape
  simp only [indices, List.flatMap_assoc, List.flatMap_map, List.map_flatMap, List.map_cons,
    List.map_nil]
  simp only [← List.map_eq_flatMap]
  rfl

/-! ## The element of a patch -/

section Elements

variable {α : Type} {h w : Nat}

theorem bounds_four {n₁ n₂ n₃ n₄ i₁ i₂ i₃ i₄ : Nat} (h₁ : i₁ < n₁) (h₂ : i₂ < n₂) (h₃ : i₃ < n₃)
    (h₄ : i₄ < n₄) : List.Forall₂ (· < ·) [i₁, i₂, i₃, i₄] [n₁, n₂, n₃, n₄] :=
  .cons h₁ (.cons h₂ (.cons h₃ (.cons h₄ .nil)))

/-- The windows have the patches of the grid. -/
theorem windowMajor_elem (a : NdArray α) (value : Nat → Nat → α) (hh : m ∣ h) (hw : m ∣ w)
    (hm : 0 < m) (hshape : a.shape.prod = h * w)
    (hvalue : ∀ i < h, ∀ j < w, ∃ idx, List.Forall₂ (· < ·) idx a.shape ∧
      ravel a.shape idx = i * w + j ∧ a.elem idx = value i j) :
    ∃ b, windowMajor a h w m = .ok b ∧ b.shape = [h / m, w / m, m, m] ∧
      ∀ row < h / m, ∀ col < w / m, ∀ x < m, ∀ y < m,
        b.elem [row, col, x, y] = value (row * m + x) (col * m + y) := by
  obtain ⟨rows, rfl⟩ := hh
  obtain ⟨cols, rfl⟩ := hw
  have hprod : a.shape.prod = [m * rows / m, m, m * cols / m, m].prod := by
    rw [hshape, Nat.mul_div_cancel_left _ hm, Nat.mul_div_cancel_left _ hm]
    simp only [List.prod_cons, List.prod_nil]
    ring
  refine ⟨(a.view [m * rows / m, m, m * cols / m, m]).permute [0, 2, 1, 3], ?_, rfl, ?_⟩
  · rw [windowMajor, guardNot_bind, if_neg hm.ne', reshape, guardNot_bind, if_neg (not_not.mpr hprod)]
    rfl
  intro row hrow col hcol x hx y hy
  rw [Nat.mul_div_cancel_left _ hm] at hrow hcol
  obtain ⟨idx, hbound, hoffset, helem⟩ := hvalue (row * m + x)
    (Nat.mul_comm m rows ▸ row_offset_lt hrow hx) (col * m + y)
    (Nat.mul_comm m cols ▸ row_offset_lt hcol hy)
  rw [NdArray.permute_elem _ [row, x, col, y] rfl, ← helem]
  refine NdArray.view_elem a hbound ?_
  rw [hoffset, Nat.mul_div_cancel_left _ hm, Nat.mul_div_cancel_left _ hm]
  simp only [ravel, List.zip_cons_cons, List.zip_nil_left, List.foldl_cons, List.foldl_nil]
  ring

theorem ravel_singleton (n k : Nat) : ravel [n] [k] = k := by simp [ravel]

theorem ravel_pair (n k i j : Nat) : ravel [n, k] [i, j] = i * k + j := by simp [ravel]

theorem flat_grid (select : List Nat → α) {i j : Nat} (hi : i < h) (hj : j < w) :
    (NdArray.view ⟨[h, w], select⟩ [h * w]).elem [i * w + j] = select [i, j] :=
  NdArray.view_elem ⟨[h, w], select⟩ (.cons hi (.cons hj .nil)) (by simp [ravel])

theorem exists_frame_window {t rows cols : Nat} {idx : List Nat}
    (h : idx ∈ indices [t, rows, cols, m, m]) :
    ∃ frame row col x y, idx = [frame, row, col, x, y] ∧ frame < t ∧ row < rows ∧ col < cols ∧
      x < m ∧ y < m := by
  rcases mem_indices.mp h with _ | ⟨hf, _ | ⟨hr, _ | ⟨hc, _ | ⟨hx, _ | ⟨hy, ⟨⟩⟩⟩⟩⟩⟩
  exact ⟨_, _, _, _, _, rfl, hf, hr, hc, hx, hy⟩

end Elements

/-! ## The rows of a grid -/

section Rows

variable {h w : Nat} (t : Nat) (hh : m ∣ h) (hw : m ∣ w) (hm : 0 < m)

include hh hw hm

theorem windowShape_prod : [h / m, w / m, m, m].prod = h * w := by
  obtain ⟨rows, rfl⟩ := hh
  obtain ⟨cols, rfl⟩ := hw
  rw [Nat.mul_div_cancel_left _ hm, Nat.mul_div_cancel_left _ hm]
  simp only [List.prod_cons, List.prod_nil]
  ring

/-- The numbers of the rows of a grid in window order. -/
theorem windowMajor_rows (value : Nat → Nat → Nat) (select : List Nat → Nat)
    (hselect : ∀ i j, select [i, j] = value i j) :
    ∃ b, windowMajor ⟨[h, w], select⟩ h w m = .ok b ∧ b.shape.prod = h * w ∧
      ∀ frame row col x y, frame < t → row < h / m → col < w / m → x < m → y < m →
        (b.view [b.shape.prod]).elem
          [ravel [t, h / m, w / m, m, m] [frame, row, col, x, y] % (h * w)] =
          value (row * m + x) (col * m + y) := by
  have hprod : [h, w].prod = h * w := by rw [List.prod_cons, List.prod_singleton]
  obtain ⟨b, hb, hshape, helem⟩ := windowMajor_elem ⟨[h, w], select⟩ value hh hw hm hprod
    fun i hi j hj => ⟨[i, j], .cons hi (.cons hj .nil), by simp [ravel], hselect i j⟩
  refine ⟨b, hb, hshape ▸ windowShape_prod hh hw hm, fun frame row col x y hf hr hc hx hy => ?_⟩
  have hbound := bounds_four hr hc hx hy
  have hlt := ravel_lt hbound
  have hoffset : ravel [t, h / m, w / m, m, m] [frame, row, col, x, y] =
      frame * [h / m, w / m, m, m].prod + ravel [h / m, w / m, m, m] [row, col, x, y] :=
    ravel_cons hbound.length_eq.symm t frame
  rw [hoffset, ← windowShape_prod hh hw hm, row_mod hlt, ← helem row hr col hc x hx y hy, ← hshape]
  exact b.view_flat _ (hshape ▸ hbound)

theorem gridPosIds_eq (image : Nat) : gridPosIds t h w m = .ok
    (((gridWindows m image ⟨t, h, w⟩).flatMap (Window.patches m)).map fun p => (p.i, p.j)) := by
  obtain ⟨b, hb, hbshape, hbelem⟩ := windowMajor_rows t hh hw hm (fun i _ => i)
    (fun idx => idx.getD 0 0) fun _ _ => rfl
  obtain ⟨c, hc, -, hcelem⟩ := windowMajor_rows t hh hw hm (fun _ j => j)
    (fun idx => idx.getD 1 0) fun _ _ => rfl
  have hlen : t * b.shape.prod = (Grid.windowShape ⟨t, h, w⟩ m).prod := by
    rw [hbshape, ← windowShape_prod hh hw hm]
    exact List.prod_cons.symm
  rw [← hbshape] at hbelem hcelem
  rw [gridPosIds, hb, hc]
  refine congrArg Except.ok ?_
  show (List.range (t * b.shape.prod)).map _ = _
  rw [gridWindows_patches, List.map_map, hlen, map_range_prod]
  refine List.map_congr_left fun idx hidx => ?_
  obtain ⟨frame, row, col, x, y, rfl, hf, hr, hcol, hx, hy⟩ := exists_frame_window hidx
  refine Prod.ext ?_ ?_
  · exact hbelem frame row col x y hf hr hcol hx hy
  · exact hcelem frame row col x y hf hr hcol hx hy

end Rows

/-! ## The absolute embedding -/

theorem linspace_le {last steps i : Nat} (hi : i < steps) : linspace last steps i ≤ last := by
  unfold linspace
  split
  · exact Nat.cast_nonneg last
  · next hne =>
    have hpos : (0 : ℚ) < (steps - 1 : Nat) := Nat.cast_pos.mpr (by omega)
    rw [div_le_iff₀ hpos, mul_comm]
    exact mul_le_mul_of_nonneg_left (Nat.cast_le.mpr (by omega)) (Nat.cast_nonneg last)

theorem floor_linspace_lt {side steps i : Nat} (hside : 0 < side) (hi : i < steps) :
    (linspace (side - 1) steps i).floor.toNat < side := by
  have hle : linspace (side - 1) steps i ≤ (side - 1 : Nat) := linspace_le hi
  by_contra hge
  have hfloor : (side : Int) ≤ (linspace (side - 1) steps i).floor := by omega
  have hcast := (Rat.le_floor_iff.mp hfloor).trans hle
  have := Int.ofNat_le.mp (show ((side : Int)) ≤ ((side - 1 : Nat) : Int) by exact_mod_cast hcast)
  omega

theorem corners_lt {side h w i j : Nat} (hside : 0 < side) (hi : i < h) (hj : j < w) :
    ∀ c ∈ corners side h w i j, c.1 < side * side := by
  have hh := floor_linspace_lt hside hi
  have hw := floor_linspace_lt hside hj
  intro c hc
  simp only [corners, List.mem_cons, List.not_mem_nil, or_false] at hc
  rcases hc with rfl | rfl | rfl | rfl
  · exact row_offset_lt hh hw
  · exact row_offset_lt hh (by omega)
  · exact row_offset_lt (by omega) hw
  · exact row_offset_lt (by omega) (by omega)

section Rows

variable {h w : Nat} (t : Nat) (hh : m ∣ h) (hw : m ∣ w) (hm : 0 < m)

include hh hw hm

theorem visionPosEmbedInterpolate_eq {embedWeight : List (List ℚ)} {side : Nat} (hside : 0 < side)
    (hsq : side * side ≤ embedWeight.length) (image : Nat) :
    ∃ embedded, visionPosEmbedInterpolate embedWeight t h w side m = .ok embedded ∧
      ((List.range embedded.shape.prod).map fun r => embedded.elem [r]) =
        ((gridWindows m image ⟨t, h, w⟩).flatMap (Window.patches m)).map fun p =>
          combinedAt embedWeight side h w p.i p.j := by
  have hcombined : combined embedWeight side h w = .ok (NdArray.view ⟨[h, w], fun idx =>
      combinedAt embedWeight side h w (idx.getD 0 0) (idx.getD 1 0)⟩ [h * w]) := by
    rw [combined, guardNot_bind, if_neg]
    · rfl
    · rintro ⟨i, hi, j, hj, c, hc, hle⟩
      exact absurd ((corners_lt hside hi hj c hc).trans_le hsq) (Nat.not_lt.mpr hle)
  generalize hvalue : combinedAt embedWeight side h w = value at hcombined ⊢
  obtain ⟨b, hb, hbshape, hbelem⟩ := windowMajor_elem (NdArray.view ⟨[h, w], fun idx =>
    value (idx.getD 0 0) (idx.getD 1 0)⟩ [h * w]) value hh hw hm List.prod_singleton
    fun i hi j hj => ⟨[i * w + j], .cons (row_offset_lt hi hj) .nil, ravel_singleton _ _,
      flat_grid _ hi hj⟩
  refine ⟨((b.view [1, b.shape.prod]).expand t).view [t * (b.shape.prod * 1)], ?_, ?_⟩
  · rw [visionPosEmbedInterpolate, guardNot_bind, if_neg hm.ne', guardNot_bind, if_neg, hcombined]
    · show (windowMajor _ h w m >>= _) = _
      rw [hb]
      rfl
    · rw [not_or, not_not, not_not]
      exact ⟨Nat.mod_eq_zero_of_dvd hh, Nat.mod_eq_zero_of_dvd hw⟩
  have hlen : t * (b.shape.prod * 1) * 1 = (Grid.windowShape ⟨t, h, w⟩ m).prod := by
    rw [hbshape, Nat.mul_one, Nat.mul_one]
    exact List.prod_cons.symm
  show (List.range (t * (b.shape.prod * 1) * 1)).map _ = _
  rw [gridWindows_patches, List.map_map, hlen, map_range_prod]
  refine List.map_congr_left fun idx hidx => ?_
  obtain ⟨frame, row, col, x, y, rfl, hf, hr, hcol, hx, hy⟩ := exists_frame_window hidx
  refine Eq.trans ?_ (hbelem row hr col hcol x hx y hy)
  have hbound : List.Forall₂ (· < ·) [row, col, x, y] b.shape :=
    hbshape.symm ▸ bounds_four hr hcol hx hy
  have hlt := ravel_lt hbound
  have hrow : ((b.view [1, b.shape.prod]).expand t).elem [frame, ravel b.shape [row, col, x, y]] =
      b.elem [row, col, x, y] :=
    b.view_elem hbound (by simp [ravel])
  rw [← hrow]
  refine NdArray.view_elem _ (.cons hf (.cons hlt .nil)) ?_
  rw [ravel_singleton]
  show ravel (t :: [h / m, w / m, m, m]) (frame :: [row, col, x, y]) = ravel [t, b.shape.prod] _
  rw [← hbshape, ravel_cons hbound.length_eq.symm, ravel_pair]

end Rows

/-! ## The patches -/

section Patches

variable {grids : List Grid}

theorem mem_gridPatches (hm : 0 < m) {image : Nat} {g : Grid} (hdvd : m ∣ g.h ∧ m ∣ g.w)
    {p : Patch} : p ∈ (gridWindows m image g).flatMap (Window.patches m) ↔
      p.image = image ∧ p.grid = g ∧ p.frame < g.t ∧ p.i < g.h ∧ p.j < g.w := by
  obtain ⟨⟨rows, hrows⟩, ⟨cols, hcols⟩⟩ := hdvd
  have hr : g.h / m = rows := by rw [hrows, Nat.mul_div_cancel_left _ hm]
  have hc : g.w / m = cols := by rw [hcols, Nat.mul_div_cancel_left _ hm]
  rw [gridWindows_patches, List.mem_map, Grid.windowShape, hr, hc]
  constructor
  · rintro ⟨idx, hidx, rfl⟩
    obtain ⟨frame, row, col, x, y, rfl, hf, hrow, hcol, hx, hy⟩ := exists_frame_window hidx
    refine ⟨rfl, rfl, hf, ?_, ?_⟩
    · rw [hrows, Nat.mul_comm]
      exact row_offset_lt hrow hx
    · rw [hcols, Nat.mul_comm]
      exact row_offset_lt hcol hy
  · obtain ⟨_, _, frame, i, j⟩ := p
    rintro ⟨rfl, rfl, hf, hi, hj⟩
    have hi' : i / m < rows := Nat.div_lt_of_lt_mul (hrows ▸ hi)
    have hj' : j / m < cols := Nat.div_lt_of_lt_mul (hcols ▸ hj)
    refine ⟨[frame, i / m, j / m, i % m, j % m], mem_indices.mpr ?_, ?_⟩
    · exact .cons hf (bounds_four hi' hj' (Nat.mod_lt i hm) (Nat.mod_lt j hm))
    · show Patch.mk _ _ _ (i / m * m + i % m) (j / m * m + j % m) = _
      rw [Nat.div_add_mod', Nat.div_add_mod']
      rfl

theorem nodup_gridPatches (image : Nat) (g : Grid) :
    ((gridWindows m image g).flatMap (Window.patches m)).Nodup := by
  rw [gridWindows_patches]
  refine (nodup_indices _).map_on fun idx hidx idx' hidx' heq => ?_
  obtain ⟨f, r, c, x, y, rfl, -, -, -, hx, hy⟩ := exists_frame_window hidx
  obtain ⟨f', r', c', x', y', rfl, -, -, -, hx', hy'⟩ := exists_frame_window hidx'
  obtain ⟨-, -, hf, hi, hj⟩ := Patch.mk.inj heq
  obtain ⟨hr, hx⟩ := mul_add_inj hx hx' hi
  obtain ⟨hc, hy⟩ := mul_add_inj hy hy' hj
  simp only [List.getD_cons_zero, List.getD_cons_succ] at hf hr hx hc hy
  rw [hf, hr, hx, hc, hy]

theorem patches_eq (m : Nat) (grids : List Grid) : patches m grids =
    grids.zipIdx.flatMap fun g => (gridWindows m g.2 g.1).flatMap (Window.patches m) :=
  List.flatMap_assoc

theorem mem_patches (hm : 0 < m) (hdvd : ∀ g ∈ grids, m ∣ g.h ∧ m ∣ g.w) {p : Patch} :
    p ∈ patches m grids ↔ grids[p.image]? = some p.grid ∧ p.frame < p.grid.t ∧ p.i < p.grid.h ∧
      p.j < p.grid.w := by
  rw [patches_eq, List.mem_flatMap]
  constructor
  · rintro ⟨⟨g, image⟩, hg, hp⟩
    have hget := List.mk_mem_zipIdx_iff_getElem?.mp hg
    obtain ⟨rfl, rfl, hf, hi, hj⟩ :=
      (mem_gridPatches hm (hdvd g (List.mem_of_getElem? hget))).mp hp
    exact ⟨hget, hf, hi, hj⟩
  · rintro ⟨hget, hp⟩
    refine ⟨(p.grid, p.image), List.mk_mem_zipIdx_iff_getElem?.mpr hget, ?_⟩
    exact (mem_gridPatches hm (hdvd _ (List.mem_of_getElem? hget))).mpr ⟨rfl, rfl, hp⟩

theorem nodup_patches (hm : 0 < m) (hdvd : ∀ g ∈ grids, m ∣ g.h ∧ m ∣ g.w) :
    (patches m grids).Nodup := by
  rw [patches_eq, List.nodup_flatMap]
  refine ⟨fun g _ => nodup_gridPatches g.2 g.1, ?_⟩
  have hsnd : (grids.zipIdx.map Prod.snd).Nodup := by
    rw [List.zipIdx_map_snd]
    exact List.nodup_range'
  refine (List.pairwise_map.mp hsnd).imp_of_mem fun {g g'} hg hg' hne p hp hp' => hne ?_
  have hget := List.mem_of_getElem? (List.mem_zipIdx_iff_getElem?.mp hg)
  have hget' := List.mem_of_getElem? (List.mem_zipIdx_iff_getElem?.mp hg')
  exact ((mem_gridPatches hm (hdvd _ hget)).mp hp).1.symm.trans
    ((mem_gridPatches hm (hdvd _ hget')).mp hp').1

theorem map_patches {β : Type} {f : Patch → β} {rows : Grid → List β}
    (h : ∀ g ∈ grids, ∀ image,
      ((gridWindows m image g).flatMap (Window.patches m)).map f = rows g) :
    (patches m grids).map f = (grids.map rows).flatten := by
  rw [patches_eq, List.map_flatMap, ← List.flatMap_def]
  conv_rhs => rw [← List.zipIdx_map_fst 0 grids, List.flatMap_map]
  exact List.flatMap_congr fun g hg => h g.1 (List.fst_mem_of_mem_zipIdx hg) g.2

/-! ## The windows -/

theorem length_window (m : Nat) (win : Window) : (win.patches m).length = m * m := by
  refine (length_flatMap_rows (fun x => ?_) _).trans (by rw [List.length_range])
  rw [List.length_map, List.length_range]

/-- The rows of a window are consecutive. -/
theorem slice_patches (hm : 0 < m) {k : Nat} {win : Window} (h : (windows m grids)[k]? = some win) :
    slice (patches m grids) (k * (m * m)) ((k + 1) * (m * m)) = win.patches m := by
  rw [patches, ← flatMap_slice (length_window m) (Nat.mul_pos hm hm)]
  obtain ⟨hk, rfl⟩ := List.getElem?_eq_some_iff.mp h
  have hone : slice (windows m grids) k (k + 1) = [(windows m grids)[k]] := by
    unfold slice
    rw [List.take_succ_eq_append_getElem hk, List.drop_append_of_le_length (by simp; omega)]
    simp
  rw [hone, List.flatMap_singleton]

theorem image_of_mem {image : Nat} {g : Grid} {win : Window} (h : win ∈ gridWindows m image g) :
    win.image = image := by
  obtain ⟨frame, -, h⟩ := List.mem_flatMap.mp h
  obtain ⟨row, -, h⟩ := List.mem_flatMap.mp h
  obtain ⟨col, -, rfl⟩ := List.mem_map.mp h
  rfl

theorem length_gridWindows (image : Nat) (g : Grid) :
    (gridWindows m image g).length = g.t * (g.h / m * (g.w / m)) := by
  refine (length_flatMap_rows (fun frame => ?_) _).trans (by rw [List.length_range])
  refine (length_flatMap_rows (fun row => ?_) _).trans (by rw [List.length_range])
  rw [List.length_map, List.length_range]

theorem windowsFrom_cons (m start : Nat) (g : Grid) (rest : List Grid) :
    windowsFrom m start (g :: rest) = gridWindows m start g ++ windowsFrom m (start + 1) rest := by
  rw [windowsFrom, List.zipIdx_cons, List.flatMap_cons]
  rfl

theorem start_le_image {start : Nat} {win : Window} (h : win ∈ windowsFrom m start grids) :
    start ≤ win.image := by
  obtain ⟨⟨g, image⟩, hg, hwin⟩ := List.mem_flatMap.mp h
  rw [image_of_mem hwin]
  exact List.le_snd_of_mem_zipIdx hg

/-- The images are one after the other. -/
theorem images_sorted (m start : Nat) (grids : List Grid) :
    ((windowsFrom m start grids).map (·.image)).Pairwise (· ≤ ·) := by
  rw [List.pairwise_map]
  induction grids generalizing start with
  | nil => exact .nil
  | cons g rest ih =>
    rw [windowsFrom_cons, List.pairwise_append]
    refine ⟨?_, ih (start + 1), fun win hwin win' hwin' => ?_⟩
    · refine List.pairwise_of_forall_mem_list fun win hwin win' hwin' => ?_
      rw [image_of_mem hwin, image_of_mem hwin']
    · have hle := start_le_image hwin'
      rw [image_of_mem hwin]
      omega

/-- The windows of an image. -/
theorem filter_windows (m start : Nat) (grids : List Grid) {k : Nat} {g : Grid}
    (h : grids[k]? = some g) :
    (windowsFrom m start grids).filter (·.image = start + k) = gridWindows m (start + k) g := by
  induction grids generalizing start k with
  | nil => cases h
  | cons g' rest ih =>
    rw [windowsFrom_cons, List.filter_append]
    cases k with
    | zero =>
      obtain rfl := Option.some.inj h
      have hrest : (windowsFrom m (start + 1) rest).filter (·.image = start + 0) = [] := by
        rw [List.filter_eq_nil_iff]
        intro win hwin heq
        have hle := start_le_image hwin
        have himage := of_decide_eq_true heq
        omega
      rw [hrest, List.append_nil, List.filter_eq_self.mpr]
      · rfl
      · exact fun win hwin => decide_eq_true (image_of_mem hwin)
    | succ k =>
      have hfirst : (gridWindows m start g').filter (·.image = start + (k + 1)) = [] := by
        rw [List.filter_eq_nil_iff]
        intro win hwin heq
        have himage := of_decide_eq_true heq
        rw [image_of_mem hwin] at himage
        omega
      rw [hfirst, List.nil_append, Nat.add_succ, ← Nat.succ_add]
      exact ih (start + 1) h

/-- An image without frames after the first has as many windows as it has tokens. -/
theorem imageTokenCount_eq {p : ImageProcessor}
    {smartResize : Nat → Nat → Nat → Nat → Nat → Call (Nat × Nat)} {height width h w : Nat}
    (hpatch : 0 < p.patchSize) (hmerge : 0 < p.mergeSize)
    (hdvd : p.mergeSize ∣ h ∧ p.mergeSize ∣ w)
    (hresized : p.resized smartResize height width = .ok (h * p.patchSize, w * p.patchSize)) :
    p.imageTokenCount smartResize height width = .ok (h / p.mergeSize * (w / p.mergeSize)) := by
  obtain ⟨⟨rows, rfl⟩, ⟨cols, rfl⟩⟩ := hdvd
  rw [ImageProcessor.imageTokenCount, hresized]
  show (guardNot _ _ >>= _) = _
  rw [guardNot_bind, if_neg hpatch.ne', guardNot_bind, if_neg (pow_pos hmerge 2).ne']
  refine congrArg Except.ok ?_
  have hprod : p.mergeSize * rows * (p.mergeSize * cols) = rows * cols * p.mergeSize ^ 2 := by ring
  rw [Nat.mul_div_cancel _ hpatch, ← Nat.mul_assoc, Nat.mul_div_cancel _ hpatch, hprod,
    Nat.mul_div_cancel _ (pow_pos hmerge 2), Nat.mul_div_cancel_left _ hmerge,
    Nat.mul_div_cancel_left _ hmerge]

end Patches

/-! ## Both embeddings -/

section Embeddings

variable {v : VisionTransformer} {grids : List Grid}

/-- The absolute embedding of a patch. -/
def VisionTransformer.embedAt (v : VisionTransformer) (p : Patch) : List ℚ :=
  combinedAt v.posEmbed v.numGridPerSide p.grid.h p.grid.w p.i p.j

theorem cat_ok {α : Type} {rows : List (List α)} (h : rows ≠ []) : cat rows = .ok rows.flatten := by
  rw [cat, guardNot_bind, if_neg h]
  rfl

variable (hgrids : grids ≠ [])
  (hdvd : ∀ g ∈ grids, v.spatialMergeSize ∣ g.h ∧ v.spatialMergeSize ∣ g.w)

include hgrids hdvd

theorem absolutePosEmb_eq :
    v.absolutePosEmb grids = .ok ((patches v.spatialMergeSize grids).map v.embedAt) := by
  have hside : 0 < v.numGridPerSide :=
    Nat.sqrt_pos.mpr (List.length_pos_iff.mpr v.posEmbed_ne)
  have hrows : ∀ g ∈ grids, (do
      let embedded ← visionPosEmbedInterpolate v.posEmbed g.t g.h g.w v.numGridPerSide
        v.spatialMergeSize
      pure ((List.range embedded.shape.prod).map fun r => embedded.elem [r]) : Call (List (List ℚ))) =
      .ok (((gridWindows v.spatialMergeSize 0 g).flatMap (Window.patches v.spatialMergeSize)).map
        fun p => combinedAt v.posEmbed v.numGridPerSide g.h g.w p.i p.j) := by
    intro g hg
    obtain ⟨embedded, hrun, hrows⟩ := visionPosEmbedInterpolate_eq g.t (hdvd g hg).1 (hdvd g hg).2
      v.spatialMergeSize_pos hside (Nat.sqrt_le' _ |>.trans_eq' (Nat.pow_two _)) 0
    rw [hrun]
    exact congrArg Except.ok hrows
  rw [VisionTransformer.absolutePosEmb, mapM_eq_ok_map hrows]
  show cat _ = _
  rw [cat_ok (by simpa using hgrids)]
  refine congrArg Except.ok (map_patches fun g hg image => ?_).symm
  rw [gridWindows_patches, gridWindows_patches, List.map_map, List.map_map]
  rfl

theorem posIds_eq :
    v.posIds grids = .ok ((patches v.spatialMergeSize grids).map fun p => (p.i, p.j)) := by
  have hrows : ∀ g ∈ grids, gridPosIds g.t g.h g.w v.spatialMergeSize =
      .ok (((gridWindows v.spatialMergeSize 0 g).flatMap (Window.patches v.spatialMergeSize)).map
        fun p => (p.i, p.j)) := fun g hg =>
    gridPosIds_eq g.t (hdvd g hg).1 (hdvd g hg).2 v.spatialMergeSize_pos 0
  rw [VisionTransformer.posIds, mapM_eq_ok_map hrows]
  show cat _ = _
  rw [cat_ok (by simpa using hgrids)]
  refine congrArg Except.ok (map_patches fun g hg image => ?_).symm
  rw [gridWindows_patches, gridWindows_patches, List.map_map, List.map_map]
  rfl

theorem rotPosEmb_eq : v.rotPosEmb grids =
    .ok ((patches v.spatialMergeSize grids).map fun p => v.freqs p.i ++ v.freqs p.j) := by
  rw [VisionTransformer.rotPosEmb, posIds_eq hgrids hdvd]
  show (guardNot _ _ >>= _) = _
  rw [guardNot_bind, if_neg]
  · show Except.ok _ = _
    rw [List.map_map]
    rfl
  rintro ⟨q, hq, hle⟩
  obtain ⟨p, hp, rfl⟩ := List.mem_map.mp hq
  obtain ⟨hget, -, hi, hj⟩ := (mem_patches v.spatialMergeSize_pos hdvd).mp hp
  have hmem : ∀ size ∈ [p.grid.h, p.grid.w],
      size ≤ (grids.flatMap fun g => [g.h, g.w]).foldl max 0 := by
    intro size hsize
    rw [List.foldl_eq_foldr]
    exact List.le_max_of_le' 0
      (List.mem_flatMap.mpr ⟨p.grid, List.mem_of_getElem? hget, hsize⟩) le_rfl
  have hh := hmem p.grid.h List.mem_cons_self
  have hw := hmem p.grid.w (List.mem_cons_of_mem _ List.mem_cons_self)
  dsimp only at hle
  omega

end Embeddings

/-- **Both embeddings have a row for each patch, in the same order; each patch of each frame has one
row, the rows of a window are consecutive, and an image has as many windows as tokens.** -/
theorem layouts_agree (v : VisionTransformer) (grids : List Grid)
    (hdvd : ∀ g ∈ grids, v.spatialMergeSize ∣ g.h ∧ v.spatialMergeSize ∣ g.w) :
    let m := v.spatialMergeSize
    (grids ≠ [] →
      v.absolutePosEmb grids = .ok ((patches m grids).map v.embedAt) ∧
      v.posIds grids = .ok ((patches m grids).map fun p => (p.i, p.j)) ∧
      v.rotPosEmb grids = .ok ((patches m grids).map fun p => v.freqs p.i ++ v.freqs p.j)) ∧
    (patches m grids).Nodup ∧
    (∀ p, p ∈ patches m grids ↔ grids[p.image]? = some p.grid ∧ p.frame < p.grid.t ∧
      p.i < p.grid.h ∧ p.j < p.grid.w) ∧
    (patches m grids).length = (windows m grids).length * (m * m) ∧
    (∀ k win, (windows m grids)[k]? = some win →
      slice (patches m grids) (k * (m * m)) ((k + 1) * (m * m)) = win.patches m) ∧
    ((windows m grids).map (·.image)).Pairwise (· ≤ ·) ∧
    ∀ (k : Nat) (g : Grid), grids[k]? = some g → g.t = 1 →
      ∀ (p : ImageProcessor) smartResize height width, 0 < p.patchSize → p.mergeSize = m →
        p.resized smartResize height width = .ok (g.h * p.patchSize, g.w * p.patchSize) →
        p.imageTokenCount smartResize height width =
          .ok ((windows m grids).countP (·.image = k)) := by
  intro m
  have hm : 0 < m := v.spatialMergeSize_pos
  refine ⟨fun hgrids => ⟨absolutePosEmb_eq hgrids hdvd, posIds_eq hgrids hdvd,
    rotPosEmb_eq hgrids hdvd⟩, nodup_patches hm hdvd, fun p => mem_patches hm hdvd,
    length_flatMap_rows (length_window m) _, fun k win h => slice_patches hm h,
    images_sorted m 0 grids, fun k g hget ht p smartResize height width hpatch hmerge hres => ?_⟩
  have hg := hdvd g (List.mem_of_getElem? hget)
  have hcount : (windows m grids).countP (·.image = k) = g.h / m * (g.w / m) := by
    have hfilter := filter_windows m 0 grids hget
    rw [Nat.zero_add] at hfilter
    rw [List.countP_eq_length_filter, windows, hfilter, length_gridWindows, ht, Nat.one_mul]
  rw [hcount, ← hmerge]
  exact imageTokenCount_eq hpatch (hmerge ▸ hm) (hmerge ▸ hg) hres

/-- An image of 20 × 30 patches and a video of two frames, in windows of 2 × 2 patches. -/
def twoGrids : List Grid := [⟨1, 20, 30⟩, ⟨2, 4, 2⟩]

/-- A vision tower with one position embedding. -/
def smallVision : VisionTransformer := ⟨[[1]], 2, [1], List.cons_ne_nil _ _, Nat.two_pos⟩

/-- `smart_resize` leaves an image of 280 × 420 pixels as it is. -/
theorem layouts_agree_two :
    smallVision.posIds twoGrids = .ok ((patches 2 twoGrids).map fun p => (p.i, p.j)) ∧
      (⟨14, 2, true⟩ : ImageProcessor).imageTokenCount (fun h w _ _ _ => .ok (h, w)) 280 420 =
        .ok ((windows 2 twoGrids).countP (·.image = 0)) := by
  obtain ⟨hrun, -, -, -, -, -, hcount⟩ := layouts_agree smallVision twoGrids (by decide)
  refine ⟨(hrun (by decide)).2.1, hcount 0 ⟨1, 20, 30⟩ rfl rfl ⟨14, 2, true⟩ _ 280 420 ?_ rfl rfl⟩
  decide

end Bi100.Vision
