import Bi100.Lib.Run
import Mathlib.Data.List.FinRange
import Mathlib.Data.List.Induction
import Mathlib.Data.List.Perm.Basic
import Mathlib.Logic.Function.Basic

/-!
# The factor registry (`ex_registry.c`)

`ex_registry_load` closes the library of an id before it opens the next one, and counts a reload as
one more factor.

- `Files`: what `dlopen` finds. It is an input of every load, since files change.
- `opened`, `closed`: the handles of `dlopen` and `dlclose`, in order. Every `dlopen` gives a new one.
- `registry_invariant_iff`: the registry is consistent after every call of a run exactly when no
  call loads an id that is loaded.
-/

namespace Bi100.Engine

open Py

/-- `EX_FACTOR_COUNT` -/
abbrev exFactorCount : Nat := 9

abbrev FactorId := Fin exFactorCount

/-- `ex_factor_t`; the name, the version and the tuning are only printed. -/
structure Factor (κ : Type) where
  factorId : Int
  kernel : Option κ
deriving DecidableEq

/-- A library, with its symbol `ex_get_factor`. -/
structure Library (H κ : Type) where
  exGetFactor : Option (H → Option (Factor κ))

/-- What `dlopen` finds at a path. -/
abbrev Files (H κ : Type) := List Char → Option (Library H κ)

/-- `ex_registry_t` -/
structure Registry (H κ : Type) where
  factors : FactorId → Option (Factor κ)
  handles : FactorId → Option Nat
  hardware : H
  loadedCount : Nat

/-- The registry of a process, and the handles it has opened and closed. -/
structure Process (H κ : Type) where
  reg : Registry H κ
  opened : List Nat
  closed : List Nat

variable {H κ : Type}

/-- `ex_registry_init` -/
def exRegistryInit (hw : H) : Process H κ :=
  ⟨⟨fun _ => none, fun _ => none, hw, 0⟩, [], []⟩

namespace Process

/-- `dlclose` -/
def dlclose (p : Process H κ) (handle : Nat) : Process H κ :=
  { p with closed := handle :: p.closed }

/-- `dlopen` of a library that is found. -/
def dlopen (p : Process H κ) : Process H κ := { p with opened := p.opened.length :: p.opened }

/-- The library of an id is closed, and its place is empty. -/
def closeExisting (p : Process H κ) (id : FactorId) : Process H κ :=
  match p.reg.handles id with
  | none => p
  | some handle =>
    { p.dlclose handle with reg := { p.reg with
        handles := Function.update p.reg.handles id none
        factors := Function.update p.reg.factors id none } }

/-- `reg->handles[id] = handle`, `reg->factors[id] = factor`, `reg->loaded_count++` -/
def store (p : Process H κ) (id : FactorId) (handle : Nat) (factor : Factor κ) : Process H κ :=
  { p with reg := { p.reg with
      handles := Function.update p.reg.handles id (some handle)
      factors := Function.update p.reg.factors id (some factor)
      loadedCount := p.reg.loadedCount + 1 } }

/-- `ex_registry_load`, after the checks of the arguments. -/
def load (p : Process H κ) (files : Files H κ) (id : FactorId) (soPath : List Char) :
    Int × Process H κ :=
  let p := p.closeExisting id
  match files soPath with
  | none => (-1, p)
  | some library =>
    let handle := p.opened.length
    let p := p.dlopen
    match library.exGetFactor with
    | none => (-1, p.dlclose handle)
    | some getFactor =>
      match getFactor p.reg.hardware with
      | none => (-1, p.dlclose handle)
      | some factor =>
        if factor.factorId ≠ (id : Nat) then (-1, p.dlclose handle)
        else (0, p.store id handle factor)

/-- `id < 0 || id >= EX_FACTOR_COUNT` -/
def factorId? (id : Int) : Option FactorId :=
  if h : 0 ≤ id ∧ id < exFactorCount then some ⟨id.toNat, by omega⟩ else none

/-- `ex_registry_load`; `none` is `NULL`. -/
def exRegistryLoad (p : Process H κ) (files : Files H κ) (id : Int) (soPath : Option (List Char)) :
    Int × Process H κ :=
  match soPath, factorId? id with
  | some soPath, some id => p.load files id soPath
  | _, _ => (-1, p)

/-- The digits at the start of a string. -/
def digits (s : List Char) : List Char := s.takeWhile Char.isDigit

/-- `%d` of `sscanf`; a number that is no `int` is not `0..8`. -/
def scanInt (s : List Char) : Option Int :=
  let s := s.dropWhile Char.isWhitespace
  let number (s : List Char) : Option Nat :=
    if digits s = [] then none
    else some ((digits s).foldl (fun n c => n * 10 + (c.toNat - '0'.toNat)) 0)
  match s with
  | '-' :: s => (number s).map fun n => -(n : Int)
  | '+' :: s => (number s).map fun n => (n : Int)
  | s => (number s).map fun n => (n : Int)

/-- `sscanf(ent->d_name, "ex_factor_%d.so", &factor_id) == 1`. What follows the number is not
compared. -/
def scanFactorId (dName : List Char) : Option Int :=
  if "ex_factor_".toList.isPrefixOf dName then scanInt (dName.drop "ex_factor_".length) else none

/-- The loads of a directory: the ids, the paths, and what `dlopen` finds at each of them. -/
def dirLoads (dirPath : List Char) (entries : List (List Char × Files H κ)) :
    List (FactorId × List Char × Files H κ) :=
  entries.filterMap fun (dName, files) =>
    ((scanFactorId dName).bind factorId?).map fun id =>
      (id, (dirPath ++ '/' :: dName).take 1023, files)

/-- The loop over the directory: the number of loads that succeed. -/
def loadAll (p : Process H κ) : List (FactorId × List Char × Files H κ) → Int × Process H κ
  | [] => (0, p)
  | (id, soPath, files) :: rest =>
    let (rc, p) := p.load files id soPath
    let (loaded, p) := p.loadAll rest
    (if rc = 0 then loaded + 1 else loaded, p)

/-- `ex_registry_load_dir`; `opendir` gives the entries, in the order of `readdir`. -/
def exRegistryLoadDir (p : Process H κ) (dirPath : Option (List Char))
    (opendir : List Char → Option (List (List Char × Files H κ))) : Int × Process H κ :=
  match dirPath with
  | none => (-1, p)
  | some dirPath =>
    match opendir dirPath with
    | none => (-1, p)
    | some entries => p.loadAll (dirLoads dirPath entries)

/-- `ex_dispatch`: the kernel that is called. -/
def exDispatch (p : Process H κ) (id : Int) : Option κ :=
  (factorId? id).bind fun id => (p.reg.factors id).bind Factor.kernel

/-- The loop of `ex_registry_destroy`. -/
def destroyAll (p : Process H κ) : List FactorId → Process H κ
  | [] => p
  | id :: rest =>
    let p := match p.reg.handles id with
      | none => p
      | some handle =>
        { p.dlclose handle with reg := { p.reg with
            handles := Function.update p.reg.handles id none } }
    destroyAll { p with reg := { p.reg with
      factors := Function.update p.reg.factors id none } } rest

/-- `ex_registry_destroy` -/
def exRegistryDestroy (p : Process H κ) : Process H κ :=
  let p := p.destroyAll (List.finRange exFactorCount)
  { p with reg := { p.reg with loadedCount := 0 } }

end Process

/-! ## Runs of calls -/

inductive Call (H κ : Type) where
  | load (files : Files H κ) (id : Int) (soPath : Option (List Char))
  | loadDir (dirPath : Option (List Char))
      (opendir : List Char → Option (List (List Char × Files H κ)))
  | destroy

/-- A call: what it returns, and the process after it. -/
def Call.run (p : Process H κ) : Call H κ → Int × Process H κ
  | .load files id soPath => p.exRegistryLoad files id soPath
  | .loadDir dirPath opendir => p.exRegistryLoadDir dirPath opendir
  | .destroy => (0, p.exRegistryDestroy)

/-! ## Handles -/

/-- One entry of a table is filled. -/
theorem filterMap_update {ι α : Type} [DecidableEq ι] {l : List ι} (hl : l.Nodup) {i : ι}
    (hi : i ∈ l) (f : ι → Option α) (x : α) :
    (l.filterMap (Function.update f i (some x))).Perm
      (x :: l.filterMap (Function.update f i none)) := by
  obtain ⟨l₁, l₂, rfl⟩ := List.append_of_mem hi
  obtain ⟨-, hright, hne⟩ := List.nodup_append.mp hl
  have hsame : ∀ (o : Option α) (l : List ι), i ∉ l →
      l.filterMap (Function.update f i o) = l.filterMap f := fun o l hnot =>
    List.filterMap_congr fun j hj => Function.update_of_ne (ne_of_mem_of_not_mem hj hnot) _ _
  have h₁ : i ∉ l₁ := fun h => hne i h i List.mem_cons_self rfl
  have h₂ : i ∉ l₂ := (List.nodup_cons.mp hright).1
  rw [List.filterMap_append, List.filterMap_append, hsame _ _ h₁, hsame _ _ h₁,
    List.filterMap_cons_some (Function.update_self i (some x) f),
    List.filterMap_cons_none (Function.update_self i none f), hsame _ _ h₂, hsame _ _ h₂]
  exact List.perm_middle

namespace Process

variable {p : Process H κ} {id : FactorId}

/-- The handles in the registry. -/
def stored (p : Process H κ) : List Nat := (List.finRange exFactorCount).filterMap p.reg.handles

/-- What every call keeps. -/
structure Inv (p : Process H κ) : Prop where
  slots : ∀ i, p.reg.factors i = none ↔ p.reg.handles i = none
  below : ∀ h ∈ p.opened, h < p.opened.length
  nodup : p.opened.Nodup
  accounted : p.opened.Perm (p.closed ++ p.stored)

/-- How many more loads than handles are counted. -/
def excess (p : Process H κ) : Int := p.reg.loadedCount - p.stored.length

theorem init_inv (hw : H) : (exRegistryInit hw : Process H κ).Inv where
  slots := fun _ => iff_of_true rfl rfl
  below := fun _ h => absurd h List.not_mem_nil
  nodup := List.nodup_nil
  accounted := by simp [exRegistryInit, stored]

theorem stored_some (p : Process H κ) (id : FactorId) (handle : Nat) :
    ((List.finRange exFactorCount).filterMap
      (Function.update p.reg.handles id (some handle))).Perm
      (handle :: (List.finRange exFactorCount).filterMap (Function.update p.reg.handles id none)) :=
  filterMap_update (List.nodup_finRange _) (List.mem_finRange id) _ _

theorem factorId?_coe (i : FactorId) : factorId? (i : Nat) = some i := by
  have hlt := i.isLt
  rw [factorId?, dif_pos ⟨by omega, by omega⟩]
  rfl

theorem exDispatch_eq {factor : Factor κ} (h : p.reg.factors id = some factor) :
    p.exDispatch (id : Nat) = factor.kernel := by
  rw [exDispatch, factorId?_coe, Option.bind_some, h, Option.bind_some]

/-! ### The steps of a load -/

theorem closeExisting_handles (p : Process H κ) (id : FactorId) :
    (p.closeExisting id).reg.handles = Function.update p.reg.handles id none := by
  unfold closeExisting
  cases h : p.reg.handles id with
  | none => exact (Function.update_eq_self_iff.mpr h.symm).symm
  | some handle => rfl

theorem closeExisting_stored {handle : Nat} (h : p.reg.handles id = some handle) :
    p.stored.Perm (handle :: (p.closeExisting id).stored) := by
  have hself : Function.update p.reg.handles id (some handle) = p.reg.handles :=
    Function.update_eq_self_iff.mpr h.symm
  have hperm := stored_some p id handle
  rw [hself] at hperm
  rw [stored, stored, closeExisting_handles]
  exact hperm

theorem closeExisting_inv (hp : p.Inv) (id : FactorId) : (p.closeExisting id).Inv := by
  cases h : p.reg.handles id with
  | none =>
    unfold closeExisting
    rw [h]
    exact hp
  | some handle =>
    have hstored := closeExisting_stored h
    unfold closeExisting at hstored ⊢
    rw [h] at hstored ⊢
    refine ⟨fun i => ?_, hp.below, hp.nodup, ?_⟩
    · dsimp only
      by_cases hi : i = id
      · rw [hi, Function.update_self, Function.update_self]
        exact iff_of_true rfl rfl
      · rw [Function.update_of_ne hi, Function.update_of_ne hi]
        exact hp.slots i
    · exact hp.accounted.trans ((List.Perm.append_left _ hstored).trans List.perm_middle)

theorem closeExisting_excess (p : Process H κ) (id : FactorId) : (p.closeExisting id).excess =
    p.excess + if (p.reg.handles id).isSome then 1 else 0 := by
  cases h : p.reg.handles id with
  | none =>
    have hself : p.closeExisting id = p := by
      unfold closeExisting
      rw [h]
    rw [hself]
    simp
  | some handle =>
    have hlen := (closeExisting_stored h).length_eq
    have hcount : (p.closeExisting id).reg.loadedCount = p.reg.loadedCount := by
      unfold closeExisting
      rw [h]
    rw [excess, excess, hcount, hlen, List.length_cons, Option.isSome_some, if_pos rfl]
    push_cast
    omega

theorem closeExisting_hardware (p : Process H κ) (id : FactorId) :
    (p.closeExisting id).reg.hardware = p.reg.hardware := by
  unfold closeExisting
  cases p.reg.handles id <;> rfl

theorem dlopen_nodup (hp : p.Inv) :
    (p.opened.length :: p.opened).Nodup ∧
      ∀ h ∈ p.opened.length :: p.opened, h < (p.opened.length :: p.opened).length := by
  refine ⟨List.nodup_cons.mpr ⟨fun h => Nat.lt_irrefl _ (hp.below _ h), hp.nodup⟩, fun h hh => ?_⟩
  rw [List.length_cons]
  rcases List.mem_cons.mp hh with rfl | hh
  · exact Nat.lt_succ_self _
  · exact (hp.below h hh).trans (Nat.lt_succ_self _)

/-- A library that is opened and closed again. -/
theorem reject_inv (hp : p.Inv) : (p.dlopen.dlclose p.opened.length).Inv :=
  ⟨hp.slots, (dlopen_nodup hp).2, (dlopen_nodup hp).1, hp.accounted.cons _⟩

theorem store_inv (hp : p.Inv) (hid : p.reg.handles id = none) (factor : Factor κ) :
    (p.dlopen.store id p.opened.length factor).Inv := by
  refine ⟨fun i => ?_, (dlopen_nodup hp).2, (dlopen_nodup hp).1, ?_⟩
  · show Function.update p.reg.factors id _ i = none ↔ Function.update p.reg.handles id _ i = none
    by_cases hi : i = id
    · rw [hi, Function.update_self, Function.update_self]
      simp
    · rw [Function.update_of_ne hi, Function.update_of_ne hi]
      exact hp.slots i
  · have hself : Function.update p.reg.handles id none = p.reg.handles :=
      Function.update_eq_self_iff.mpr hid.symm
    have hstored := stored_some p id p.opened.length
    rw [hself] at hstored
    exact (hp.accounted.cons _).trans
      (List.perm_middle.symm.trans (List.Perm.append_left _ hstored.symm))

theorem store_excess (hid : p.reg.handles id = none) (factor : Factor κ) :
    (p.dlopen.store id p.opened.length factor).excess = p.excess := by
  have hself : Function.update p.reg.handles id none = p.reg.handles :=
    Function.update_eq_self_iff.mpr hid.symm
  have hlen := (stored_some p id p.opened.length).length_eq
  rw [hself, List.length_cons] at hlen
  show ((p.reg.loadedCount + 1 : Nat) : Int) - ((List.filterMap
    (Function.update p.reg.handles id (some p.opened.length)) _).length : Nat) = _
  rw [hlen, excess, stored]
  push_cast
  omega

/-! ### A load -/

/-- The factor that a load finds, when the library and the factor pass all checks. -/
def factorOf (hw : H) (id : FactorId) (soPath : List Char) (files : Files H κ) :
    Option (Factor κ) :=
  (((files soPath).bind Library.exGetFactor).bind fun getFactor => getFactor hw).filter
    fun factor => factor.factorId = (id : Nat)

variable {files : Files H κ} {soPath : List Char} {factor : Factor κ}

theorem load_some (h : factorOf p.reg.hardware id soPath files = some factor) :
    p.load files id soPath = (0, (p.closeExisting id).dlopen.store id
      (p.closeExisting id).opened.length factor) := by
  obtain ⟨hfound, hid⟩ := Option.filter_eq_some_iff.mp h
  obtain ⟨getFactor, hlibrary, hget⟩ := Option.bind_eq_some_iff.mp hfound
  obtain ⟨library, hfiles, hsym⟩ := Option.bind_eq_some_iff.mp hlibrary
  unfold load
  rw [hfiles]
  dsimp only
  rw [hsym]
  dsimp only [dlopen]
  rw [closeExisting_hardware, hget]
  exact if_neg (not_not.mpr (of_decide_eq_true hid))

/-- A load that fails leaves the registry without the previous factor. -/
theorem load_none (h : factorOf p.reg.hardware id soPath files = none) :
    ∃ q, p.load files id soPath = (-1, q) ∧ (q = p.closeExisting id ∨
      q = (p.closeExisting id).dlopen.dlclose (p.closeExisting id).opened.length) := by
  unfold load
  unfold factorOf at h
  cases hfiles : files soPath with
  | none => exact ⟨_, rfl, .inl rfl⟩
  | some library =>
    refine ⟨_, ?_, .inr rfl⟩
    rw [hfiles, Option.bind_some] at h
    dsimp only
    cases hsym : library.exGetFactor with
    | none => rfl
    | some getFactor =>
      rw [hsym, Option.bind_some] at h
      dsimp only [dlopen]
      rw [closeExisting_hardware]
      cases hget : getFactor p.reg.hardware with
      | none => rfl
      | some factor =>
        rw [hget, Option.filter_some] at h
        refine if_pos fun hid => ?_
        rw [if_pos (decide_eq_true hid)] at h
        exact absurd h (Option.some_ne_none _)

/-- What a load does, for the handles and the counts. -/
theorem load_spec (hp : p.Inv) (files : Files H κ) (id : FactorId) (soPath : List Char) :
    (p.load files id soPath).2.Inv ∧
      (p.load files id soPath).2.reg.hardware = p.reg.hardware ∧
      (p.load files id soPath).2.excess =
        p.excess + (if (p.reg.handles id).isSome then 1 else 0) ∧
      ((p.load files id soPath).2.reg.handles id).isSome =
        (factorOf p.reg.hardware id soPath files).isSome ∧
      ∀ i ≠ id, (p.load files id soPath).2.reg.handles i = p.reg.handles i ∧
        (p.load files id soPath).2.reg.factors i = p.reg.factors i := by
  have hclosed := closeExisting_inv hp id
  have hempty : (p.closeExisting id).reg.handles id = none := by
    rw [closeExisting_handles, Function.update_self]
  have hother : ∀ i ≠ id, (p.closeExisting id).reg.handles i = p.reg.handles i ∧
      (p.closeExisting id).reg.factors i = p.reg.factors i := by
    intro i hi
    rw [closeExisting_handles, Function.update_of_ne hi]
    refine ⟨rfl, ?_⟩
    unfold closeExisting
    cases p.reg.handles id with
    | none => rfl
    | some handle => exact Function.update_of_ne hi _ _
  rw [← closeExisting_excess]
  cases hfound : factorOf p.reg.hardware id soPath files with
  | none =>
    obtain ⟨q, hload, rfl | rfl⟩ := load_none hfound
    · rw [hload]
      exact ⟨hclosed, closeExisting_hardware p id, rfl, congrArg Option.isSome hempty, hother⟩
    · rw [hload]
      exact ⟨reject_inv hclosed, closeExisting_hardware p id, rfl,
        congrArg Option.isSome hempty, hother⟩
  | some factor =>
    rw [load_some hfound]
    refine ⟨store_inv hclosed hempty factor, closeExisting_hardware p id,
      store_excess hempty factor, ?_, fun i hi => ⟨?_, ?_⟩⟩
    · have hself := Function.update_self id (some (p.closeExisting id).opened.length)
        (p.closeExisting id).reg.handles
      exact (congrArg Option.isSome hself).trans rfl
    · exact (Function.update_of_ne hi _ _).trans (hother i hi).1
    · exact (Function.update_of_ne hi _ _).trans (hother i hi).2

/-! ### The loads of a directory -/

/-- No load is for an id that is loaded: not before, and not by an earlier load. -/
def FirstLoads (hw : H) : (FactorId → Bool) → List (FactorId × List Char × Files H κ) → Prop
  | _, [] => True
  | loaded, (id, soPath, files) :: rest =>
    loaded id = false ∧ FirstLoads hw
      (Function.update loaded id (factorOf hw id soPath files).isSome) rest

/-- The ids with a handle. -/
def loaded (p : Process H κ) : FactorId → Bool := fun i => (p.reg.handles i).isSome

theorem load_loaded (hp : p.Inv) (files : Files H κ) (id : FactorId) (soPath : List Char) :
    (p.load files id soPath).2.loaded =
      Function.update p.loaded id (factorOf p.reg.hardware id soPath files).isSome := by
  obtain ⟨-, -, -, hself, hother⟩ := load_spec hp files id soPath
  funext i
  by_cases hi : i = id
  · rw [hi, Function.update_self]
    exact hself
  · rw [Function.update_of_ne hi]
    exact congrArg Option.isSome (hother i hi).1

theorem loadAll_inv (loads : List (FactorId × List Char × Files H κ)) (hp : p.Inv) :
    (p.loadAll loads).2.Inv := by
  induction loads generalizing p with
  | nil => exact hp
  | cons a rest ih => exact ih (load_spec hp a.2.2 a.1 a.2.1).1

/-- Reloads are counted as new factors. -/
theorem loadAll_excess (loads : List (FactorId × List Char × Files H κ)) (hp : p.Inv) :
    p.excess ≤ (p.loadAll loads).2.excess ∧
      ((p.loadAll loads).2.excess = p.excess ↔ FirstLoads p.reg.hardware p.loaded loads) := by
  induction loads generalizing p with
  | nil => exact ⟨Int.le_refl _, iff_of_true rfl trivial⟩
  | cons a rest ih =>
    obtain ⟨id, soPath, files⟩ := a
    obtain ⟨hinv, hhw, hexcess, -, -⟩ := load_spec hp files id soPath
    obtain ⟨hle, hiff⟩ := ih hinv
    rw [hhw, load_loaded hp files id soPath] at hiff
    show _ ≤ ((p.load files id soPath).2.loadAll rest).2.excess ∧
      (((p.load files id soPath).2.loadAll rest).2.excess = _ ↔
        p.loaded id = false ∧ FirstLoads _ _ rest)
    change _ = p.excess + if p.loaded id = true then 1 else 0 at hexcess
    cases hid : p.loaded id with
    | true =>
      rw [if_pos hid] at hexcess
      exact ⟨by omega, iff_of_false (by omega) fun h => Bool.noConfusion h.1⟩
    | false =>
      rw [if_neg (by rw [hid]; exact Bool.noConfusion), Int.add_zero] at hexcess
      rw [← hexcess, hiff]
      exact ⟨hle, (and_iff_right rfl).symm⟩

/-- Loads of other ids leave a factor in place. -/
theorem loadAll_factors {loads : List (FactorId × List Char × Files H κ)} (hp : p.Inv)
    (h : FirstLoads p.reg.hardware p.loaded loads) {i : FactorId}
    (hi : p.reg.factors i = some factor) :
    (p.loadAll loads).2.reg.factors i = some factor := by
  induction loads generalizing p with
  | nil => exact hi
  | cons a rest ih =>
    obtain ⟨id, soPath, files⟩ := a
    obtain ⟨hinv, hhw, -, -, hother⟩ := load_spec hp files id soPath
    have hne : i ≠ id := by
      rintro rfl
      have hnone := (hp.slots i).mpr
        (Option.isNone_iff_eq_none.mp (Option.isSome_eq_false_iff.mp h.1))
      rw [hnone] at hi
      exact absurd hi (Option.some_ne_none factor).symm
    refine ih (p := (p.load files id soPath).2) hinv ?_ ((hother i hne).2.trans hi)
    rw [hhw, load_loaded hp files id soPath]
    exact h.2

/-! ### `ex_registry_destroy` -/

theorem destroyAll_eq (hp : p.Inv) (ids : List FactorId) :
    p.destroyAll ids = ids.foldl closeExisting p := by
  induction ids generalizing p with
  | nil => rfl
  | cons id rest ih =>
    rw [List.foldl_cons, ← ih (closeExisting_inv hp id), destroyAll, closeExisting]
    cases hid : p.reg.handles id with
    | none =>
      have hself : Function.update p.reg.factors id none = p.reg.factors :=
        Function.update_eq_self_iff.mpr ((hp.slots id).mpr hid).symm
      dsimp only
      rw [hself]
    | some handle => rfl

theorem closeAll_spec (hp : p.Inv) (ids : List FactorId) : (ids.foldl closeExisting p).Inv ∧
    ∀ i, i ∈ ids ∨ p.reg.handles i = none → (ids.foldl closeExisting p).reg.handles i = none := by
  induction ids generalizing p with
  | nil => exact ⟨hp, fun i h => h.resolve_left List.not_mem_nil⟩
  | cons id rest ih =>
    obtain ⟨hinv, hempty⟩ := ih (closeExisting_inv hp id)
    refine ⟨hinv, fun i hi => hempty i ?_⟩
    rw [closeExisting_handles, List.mem_cons] at *
    by_cases heq : i = id
    · exact .inr (heq ▸ Function.update_self _ _ _)
    · rw [Function.update_of_ne heq]
      exact hi.imp_left (·.resolve_left heq)

/-- No handle is left, and none is counted. -/
theorem destroy_spec (hp : p.Inv) : p.exRegistryDestroy.Inv ∧ p.exRegistryDestroy.excess = 0 := by
  obtain ⟨hinv, hempty⟩ := closeAll_spec hp (List.finRange exFactorCount)
  have hnone : p.exRegistryDestroy.stored = [] := by
    refine List.filterMap_eq_nil_iff.mpr fun i _ => ?_
    have hall := hempty i (.inl (List.mem_finRange i))
    rw [← destroyAll_eq hp] at hall
    exact hall
  refine ⟨?_, ?_⟩
  · rw [← destroyAll_eq hp] at hinv
    exact ⟨hinv.slots, hinv.below, hinv.nodup, hinv.accounted⟩
  · rw [excess, hnone]
    rfl

end Process

/-! ## The registry over a run -/

namespace Call

/-- The loads of a call that pass the checks of the arguments. -/
def loads : Call H κ → List (FactorId × List Char × Files H κ)
  | .load files id soPath => (soPath.bind fun soPath => (Process.factorId? id).map fun id =>
      (id, soPath, files)).toList
  | .loadDir dirPath opendir => (dirPath.bind fun dirPath => (opendir dirPath).map fun entries =>
      Process.dirLoads dirPath entries).getD []
  | .destroy => []

/-- A call is its loads, or it destroys the registry. -/
theorem run_eq (p : Process H κ) (call : Call H κ) : (call.run p).2 = (p.loadAll call.loads).2 ∨
    call.loads = [] ∧ (call.run p).2 = p.exRegistryDestroy := by
  cases call with
  | load files id soPath =>
    refine .inl ?_
    cases soPath with
    | none => rfl
    | some soPath =>
      dsimp only [loads, run, Process.exRegistryLoad, Option.bind_some]
      cases Process.factorId? id with
      | none => rfl
      | some id => rfl
  | loadDir dirPath opendir =>
    refine .inl ?_
    cases dirPath with
    | none => rfl
    | some dirPath =>
      dsimp only [loads, run, Process.exRegistryLoadDir, Option.bind_some]
      cases opendir dirPath with
      | none => rfl
      | some entries => rfl
  | destroy => exact .inr ⟨rfl, rfl⟩

end Call

/-- A process, and the call it comes from. -/
structure State (H κ : Type) where
  proc : Process H κ
  last : Option (Process H κ × Call H κ)

/-- Any calls on an initialised registry. -/
def registrySys (H κ : Type) : Sys (State H κ) where
  init s := ∃ hw, s = ⟨exRegistryInit hw, none⟩
  step s s' := ∃ call : Call H κ, s' = ⟨(call.run s.proc).2, some (s.proc, call)⟩

/-- A factor whose reloads all fail is still in place, and dispatched to. -/
def Kept (p : Process H κ) (call : Call H κ) (p' : Process H κ) : Prop :=
  ∀ i factor, p.reg.factors i = some factor → (∃ a ∈ call.loads, a.1 = i) →
    (∀ a ∈ call.loads, a.1 = i → Process.factorOf p.reg.hardware i a.2.1 a.2.2 = none) →
    p'.reg.factors i = some factor ∧ p'.exDispatch (i : Nat) = factor.kernel

/-- The registry after a call. -/
structure Consistent (s : State H κ) : Prop where
  slots : ∀ i, s.proc.reg.factors i ≠ none ↔ s.proc.reg.handles i ≠ none
  count : s.proc.reg.loadedCount = s.proc.stored.length
  nodup : s.proc.opened.Nodup
  accounted : s.proc.opened.Perm (s.proc.closed ++ s.proc.stored)
  kept : ∀ p call, s.last = some (p, call) → Kept p call s.proc

/-- The last call loads no id that is loaded. -/
def NoReload (s : State H κ) : Prop :=
  ∀ p call, s.last = some (p, call) →
    Process.FirstLoads p.reg.hardware p.loaded call.loads

variable {s s' : State H κ}

/-- Every call keeps the handles in order, and never counts too few. -/
theorem registry_inv (h : (registrySys H κ).Reachable s) : s.proc.Inv ∧ 0 ≤ s.proc.excess := by
  refine h.invariant (I := fun s => s.proc.Inv ∧ 0 ≤ s.proc.excess) ?_ ?_
  · rintro _ ⟨hw, rfl⟩
    exact ⟨Process.init_inv hw, by simp [Process.excess, exRegistryInit, Process.stored]⟩
  · rintro s _ - ⟨hinv, hpos⟩ ⟨call, rfl⟩
    dsimp only
    rcases call.run_eq s.proc with hrun | ⟨-, hrun⟩
    · rw [hrun]
      exact ⟨Process.loadAll_inv _ hinv, hpos.trans (Process.loadAll_excess _ hinv).1⟩
    · rw [hrun]
      exact ⟨(Process.destroy_spec hinv).1, (Process.destroy_spec hinv).2.ge⟩

theorem Process.Inv.slots_ne {p : Process H κ} (hp : p.Inv) (i : FactorId) :
    p.reg.factors i ≠ none ↔ p.reg.handles i ≠ none := not_congr (hp.slots i)

theorem excess_eq_zero {p : Process H κ} :
    p.excess = 0 ↔ p.reg.loadedCount = p.stored.length := by
  unfold Process.excess
  omega

/-- **The registry is consistent after every call exactly when no call reloads an id.** -/
theorem registry_invariant_iff {l : List (State H κ × State H κ)}
    (h : (registrySys H κ).Trace s l) :
    (∀ st ∈ l, Consistent st.2) ↔ ∀ st ∈ l, NoReload st.2 := by
  refine Sys.Trace.all_iff (C := fun _ s' => NoReload s') ?_ ?_ ?_ h
  · rintro _ ⟨hw, rfl⟩
    have hinv := Process.init_inv (κ := κ) hw
    exact ⟨hinv.slots_ne, rfl, hinv.nodup, hinv.accounted, fun _ _ h => by cases h⟩
  · rintro s _ hreach hgood ⟨call, rfl⟩ hnew
    have hinv := (registry_inv hreach).1
    have hzero := excess_eq_zero.mpr hgood.count
    have hloads := hnew s.proc call rfl
    rcases call.run_eq s.proc with hrun | ⟨hnone, hrun⟩
    · have hinv' := Process.loadAll_inv call.loads hinv
      have hexcess := (Process.loadAll_excess call.loads hinv).2.mpr hloads
      rw [← hrun] at hinv' hexcess
      refine ⟨hinv'.slots_ne, excess_eq_zero.mp (hexcess.trans hzero), hinv'.nodup,
        hinv'.accounted, ?_⟩
      rintro p _ hlast i factor hi - -
      obtain ⟨rfl, rfl⟩ := Prod.mk.inj (Option.some.inj hlast)
      have hkept := Process.loadAll_factors hinv hloads hi
      rw [← hrun] at hkept
      exact ⟨hkept, Process.exDispatch_eq hkept⟩
    · have hspec := Process.destroy_spec hinv
      rw [← hrun] at hspec
      refine ⟨hspec.1.slots_ne, excess_eq_zero.mp hspec.2, hspec.1.nodup, hspec.1.accounted, ?_⟩
      rintro p _ hlast i factor - ⟨a, ha, -⟩ -
      obtain ⟨rfl, rfl⟩ := Prod.mk.inj (Option.some.inj hlast)
      rw [hnone] at ha
      exact absurd ha List.not_mem_nil
  · rintro s _ hreach ⟨call, rfl⟩ hgood
    rintro p _ hlast
    obtain ⟨rfl, rfl⟩ := Prod.mk.inj (Option.some.inj hlast)
    obtain ⟨hinv, hpos⟩ := registry_inv hreach
    rcases call.run_eq s.proc with hrun | ⟨hnone, -⟩
    · obtain ⟨hle, hiff⟩ := Process.loadAll_excess call.loads hinv
      have hzero := excess_eq_zero.mpr hgood.count
      rw [← hrun] at hle hiff
      dsimp only at hzero
      exact hiff.mp (by omega)
    · rw [hnone]
      trivial

/-- A library with factor 0, which is gone at the second load. -/
def loadTwice : List (Call Unit Unit) :=
  [.load (fun _ => some ⟨some fun _ => some ⟨0, some ()⟩⟩) 0 (some "ex_factor_0.so".toList),
    .load (fun _ => none) 0 (some "ex_factor_0.so".toList)]

/-- The states of a run of calls, the last one first. -/
def runCalls (s : State H κ) (calls : List (Call H κ)) : State H κ × List (State H κ × State H κ) :=
  calls.foldl (fun (s, l) call =>
    let s' : State H κ := ⟨(call.run s.proc).2, some (s.proc, call)⟩
    (s', (s, s') :: l)) (s, [])

theorem runCalls_trace (hw : H) (calls : List (Call H κ)) :
    (registrySys H κ).Trace (runCalls ⟨exRegistryInit hw, none⟩ calls).1
      (runCalls ⟨exRegistryInit hw, none⟩ calls).2 := by
  induction calls using List.reverseRecOn with
  | nil => exact .init ⟨hw, rfl⟩
  | append_singleton calls call ih =>
    rw [runCalls, List.foldl_append]
    exact .step ih ⟨call, rfl⟩

/-- A reload that fails loses the factor, and it is still counted. -/
theorem reload_breaks : ¬ ∀ s l, (registrySys Unit Unit).Trace s l →
    ∀ st ∈ l, Consistent st.2 := by
  intro h
  have hlast := h _ _ (runCalls_trace () loadTwice) _ List.mem_cons_self
  exact absurd hlast.count (by decide)

/-- Two ids. -/
def loadOnce : List (Call Unit Unit) :=
  [.load (fun _ => some ⟨some fun _ => some ⟨0, some ()⟩⟩) 0 (some "ex_factor_0.so".toList),
    .load (fun _ => none) 1 (some "ex_factor_1.so".toList), .destroy]

theorem registry_invariant_loadOnce :
    (∀ st ∈ (runCalls ⟨exRegistryInit (), none⟩ loadOnce).2, Consistent st.2) ↔
      ∀ st ∈ (runCalls ⟨exRegistryInit (), none⟩ loadOnce).2, NoReload st.2 :=
  registry_invariant_iff (runCalls_trace () loadOnce)

end Bi100.Engine
