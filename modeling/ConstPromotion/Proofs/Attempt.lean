import ConstPromotion.World
import Mathlib.Tactic

/-!
# Runs of attempts

What the ways to put attempts together do to their runs. An attempt is followed through its steps
with these equations, and its definition is not needed again.
-/

namespace ConstPromotion.Attempt

variable {σ ε ε' α β : Type}

/-! ### Steps -/

@[simp] lemma run_pure (x : α) (s : σ) : (pure x : Attempt σ ε α).run.run s = (.ok x, s) := rfl

@[simp] lemma run_throw (e : ε) (s : σ) :
    (throw e : Attempt σ ε α).run.run s = (.error e, s) := rfl

@[simp] lemma run_get (s : σ) : (get : Attempt σ ε σ).run.run s = (.ok s, s) := rfl

@[simp] lemma run_set (s t : σ) : (set t : Attempt σ ε PUnit).run.run s = (.ok ⟨⟩, t) := rfl

@[simp] lemma run_modify (f : σ → σ) (s : σ) :
    (modify f : Attempt σ ε PUnit).run.run s = (.ok ⟨⟩, f s) := rfl

/-- An error skips what comes after it. -/
@[simp] lemma run_bind (a : Attempt σ ε α) (f : α → Attempt σ ε β) (s : σ) :
    (a >>= f).run.run s =
      match a.run.run s with
      | (.ok x, t) => (f x).run.run t
      | (.error e, t) => (.error e, t) := by
  change (ExceptT.run a).run s >>= (fun p => (ExceptT.bindCont f p.1).run p.2) = _
  obtain ⟨result, t⟩ := (ExceptT.run a).run s
  cases result <;> rfl

lemma run_bind_ok {a : Attempt σ ε α} {f : α → Attempt σ ε β} {s t : σ} {x : α}
    (h : a.run.run s = (.ok x, t)) : (a >>= f).run.run s = (f x).run.run t := by
  rw [run_bind, h]

lemma run_bind_error {a : Attempt σ ε α} {s t : σ} {e : ε} (h : a.run.run s = (.error e, t))
    (f : α → Attempt σ ε β) : (a >>= f).run.run s = (.error e, t) := by
  rw [run_bind, h]

/-- A result that is only rewritten changes no state. -/
lemma run_bind_pure (a : Attempt σ ε α) (f : α → β) (s : σ) :
    (a >>= fun x => pure (f x)).run.run s = ((a.run.run s).1.map f, (a.run.run s).2) := by
  rw [run_bind]
  rcases a.run.run s with ⟨_ | x, t⟩ <;> rfl

/-- An attempt in two steps that succeeds does so in both. -/
lemma exists_of_run_bind {a : Attempt σ ε α} {f : α → Attempt σ ε β} {s t : σ} {y : β}
    (h : (a >>= f).run.run s = (.ok y, t)) :
    ∃ x u, a.run.run s = (.ok x, u) ∧ (f x).run.run u = (.ok y, t) := by
  rw [run_bind] at h
  rcases hrun : a.run.run s with ⟨_ | x, u⟩
  · rw [hrun] at h
    cases h
  · rw [hrun] at h
    exact ⟨x, u, rfl, h⟩

@[simp] lemma run_wrapping (wrap : ε → ε') (a : Attempt σ ε α) (s : σ) :
    (a.wrapping wrap).run.run s = ((a.run.run s).1.mapError wrap, (a.run.run s).2) := rfl

/-- An attempt that succeeds does so in any words. -/
lemma run_of_run_wrapping {wrap : ε → ε'} {a : Attempt σ ε α} {s t : σ} {x : α}
    (h : (a.wrapping wrap).run.run s = (.ok x, t)) : a.run.run s = (.ok x, t) := by
  rw [run_wrapping] at h
  rcases hrun : a.run.run s with ⟨_ | x', u⟩
  · rw [hrun] at h
    cases h
  · rw [hrun] at h
    cases h
    rfl

@[simp] lemma run_outcome (a : Attempt σ ε α) (s : σ) :
    (a.outcome : Attempt σ ε' (Except ε α)).run.run s = (.ok (a.run.run s).1, (a.run.run s).2) :=
  rfl

@[simp] lemma run_settle (a : Attempt σ ε α) (s : σ) :
    (a.settle : Attempt σ ε' Unit).run.run s = (.ok (), (a.run.run s).2) := rfl

@[simp] lemma run_onPart {τ : Type} (part : σ → τ) (withPart : σ → τ → σ) (a : Attempt τ ε α)
    (s : σ) : (a.onPart part withPart).run.run s =
      ((a.run.run (part s)).1, withPart s (a.run.run (part s)).2) := rfl

/-! ### Errors -/

/-- Only errors of some kind come of an attempt, in whatever state it is made. -/
def Raises (P : ε → Prop) (a : Attempt σ ε α) : Prop :=
  ∀ ⦃s e t⦄, a.run.run s = (.error e, t) → P e

namespace Raises

variable {P : ε → Prop} {a : Attempt σ ε α}

lemma pure (x : α) : Raises P (Pure.pure x : Attempt σ ε α) := by
  rintro s e t ⟨⟩

lemma throw {e : ε} (h : P e) : Raises P (MonadExcept.throw e : Attempt σ ε α) := by
  rintro s e t ⟨⟩
  exact h

lemma of_run_ok (h : ∀ s, ∃ x t, a.run.run s = (.ok x, t)) : Raises P a := by
  intro s e t hrun
  obtain ⟨x, t', hok⟩ := h s
  rw [hok] at hrun
  cases hrun

lemma bind {f : α → Attempt σ ε β} (ha : Raises P a) (hf : ∀ x, Raises P (f x)) :
    Raises P (a >>= f) := by
  intro s e t hrun
  rcases hstep : a.run.run s with ⟨e' | x, u⟩
  · rw [run_bind_error hstep] at hrun
    cases hrun
    exact ha hstep
  · rw [run_bind_ok hstep] at hrun
    exact hf x hrun

lemma onPart {τ : Type} {a : Attempt τ ε α} (ha : Raises P a) (part : σ → τ)
    (withPart : σ → τ → σ) : Raises P (a.onPart part withPart) := by
  intro s e t hrun
  rw [run_onPart] at hrun
  exact ha (Prod.ext (Prod.mk.inj hrun).1 rfl)

end Raises

/-! ### Lists -/

section Lists

variable {a : α → Attempt σ ε β} {x : α} {xs : List α} {zs : List β} {s t : σ} {e : ε}

/-- A list that is worked off well leaves off where the next list starts. -/
lemma run_mapM_append (h : (xs.mapM a).run.run s = (.ok zs, t)) (ys : List α) :
    ((xs ++ ys).mapM a).run.run s =
      ((((ys.mapM a).run.run t).1.map (zs ++ ·)), ((ys.mapM a).run.run t).2) := by
  rw [List.mapM_append, run_bind_ok h, run_bind_pure]

/-- An error ends the work on a list. -/
lemma run_mapM_cons_error (h : (a x).run.run s = (.error e, t)) (xs : List α) :
    ((x :: xs).mapM a).run.run s = (.error e, t) := by
  rw [List.mapM_cons, run_bind_error h]

/-- Work on a list that fails was done well up to the element at which it fails. -/
lemma exists_of_run_mapM_error (h : (xs.mapM a).run.run s = (.error e, t)) :
    ∃ done x later zs u, xs = done ++ x :: later ∧ (done.mapM a).run.run s = (.ok zs, u) ∧
      (a x).run.run u = (.error e, t) := by
  induction xs generalizing s with
  | nil => cases h
  | cons x xs ih =>
    rw [List.mapM_cons] at h
    rcases hx : (a x).run.run s with ⟨e' | y, u⟩
    · rw [run_bind_error hx] at h
      cases h
      exact ⟨[], x, xs, [], s, rfl, rfl, hx⟩
    · rw [run_bind_ok hx, run_bind_pure] at h
      rcases hxs : (xs.mapM a).run.run u with ⟨e' | ys, t'⟩
      · rw [hxs] at h
        obtain ⟨done, x', later, zs, u', rfl, hdone, hx'⟩ := ih (hxs.trans h)
        refine ⟨x :: done, x', later, y :: zs, u', rfl, ?_, hx'⟩
        rw [List.mapM_cons, run_bind_ok hx, run_bind_ok hdone, run_pure]
      · rw [hxs] at h
        cases h

/-- What each step that ends well preserves, work on a whole list that ends well preserves. -/
lemma of_run_mapM {P : σ → Prop}
    (hstep : ∀ x s y t, (a x).run.run s = (.ok y, t) → P s → P t)
    (h : (xs.mapM a).run.run s = (.ok zs, t)) (hs : P s) : P t := by
  induction xs generalizing s zs with
  | nil =>
    cases h
    exact hs
  | cons x xs ih =>
    rw [List.mapM_cons] at h
    obtain ⟨y, u, hx, hrest⟩ := exists_of_run_bind h
    obtain ⟨ys, t', hxs, hpure⟩ := exists_of_run_bind hrest
    cases hpure
    exact ih hxs (hstep x s y u hx hs)

end Lists

/-! ### Files -/

variable [HasFiles σ]

@[simp] lemma run_query (ask : FileSystem → α) (s : σ) :
    (query ask : Attempt σ ε α).run.run s = (.ok (ask (HasFiles.files s)), s) := rfl

@[simp] lemma run_inspect (ask : FileSystem → Except OsError α) (s : σ) :
    (inspect ask : Attempt σ OsError α).run.run s = (ask (HasFiles.files s), s) := by
  rw [inspect, run_bind, run_get]
  cases h : ask (HasFiles.files s) with
  | ok x => simp only [h, run_pure]
  | error e => simp only [h, run_throw]

@[simp] lemma run_change (act : FileSystem → Except OsError FileSystem) (s : σ) :
    (change act : Attempt σ OsError Unit).run.run s =
      match act (HasFiles.files s) with
      | .ok fs => (.ok (), HasFiles.withFiles s fs)
      | .error e => (.error e, s) := by
  rw [change, run_bind, run_get]
  cases h : act (HasFiles.files s) with
  | ok fs => simp only [h, run_set]
  | error e => simp only [h, run_throw]

/-- A change that succeeds leaves the files that it made. -/
lemma exists_of_run_change {act : FileSystem → Except OsError FileSystem} {s t : σ}
    (h : (change act : Attempt σ OsError Unit).run.run s = (.ok (), t)) :
    ∃ fs, act (HasFiles.files s) = .ok fs ∧ t = HasFiles.withFiles s fs := by
  rw [run_change] at h
  split at h
  next fs hact =>
    cases h
    exact ⟨fs, hact, rfl⟩
  next => cases h

/-- Directories that were made stay, also where one of them could not be made. -/
@[simp] lemma run_createDirectories (p : Path) (s : σ) :
    (createDirectories p : Attempt σ OsError Unit).run.run s =
      (((HasFiles.files s).createDirectories p).1,
        HasFiles.withFiles s ((HasFiles.files s).createDirectories p).2) := by
  rw [createDirectories, run_bind, run_get]
  rcases h : (HasFiles.files s).createDirectories p with ⟨_ | _, fs⟩
  all_goals simp only [h, run_bind, run_set, run_throw, run_pure]

@[simp] lemma run_copyBytesOn (disk : Disk) (source target : Path) (s : σ) :
    (copyBytesOn disk source target : Attempt σ OsError Nat).run.run s =
      match disk.copy (HasFiles.files s) source target with
      | .ok (size, fs) => (.ok size, HasFiles.withFiles s fs)
      | .error e => (.error e, s) := by
  rw [copyBytesOn, run_bind, run_get]
  cases h : disk.copy (HasFiles.files s) source target with
  | ok made => simp only [h, run_bind, run_set, run_pure]
  | error e => simp only [h, run_throw]

@[simp] lemma run_copyBytes (source target : Path) (s : σ) :
    (copyBytes source target : Attempt σ OsError Nat).run.run s =
      match (HasFiles.files s).copy source target with
      | .ok (size, fs) => (.ok size, HasFiles.withFiles s fs)
      | .error e => (.error e, s) := run_copyBytesOn .plain source target s

/-- A copy that succeeds leaves the files that it made. -/
lemma exists_copy_of_run_copyBytesOn {disk : Disk} {s t : σ} {source target : Path} {size : Nat}
    (h : (copyBytesOn disk source target : Attempt σ OsError Nat).run.run s = (.ok size, t)) :
    ∃ fs, disk.copy (HasFiles.files s) source target = .ok (size, fs) ∧
      t = HasFiles.withFiles s fs := by
  rw [run_copyBytesOn] at h
  split at h
  next size' fs hcopy =>
    obtain ⟨⟨⟩, rfl⟩ := Prod.mk.inj h
    exact ⟨fs, hcopy, rfl⟩
  next => cases h

/-! ### Files of a world -/

variable {w : World} {p : Path} {fs : FileSystem} {e : OsError}

@[simp] lemma run_onWorld (a : Action ε α) (w : World) :
    (a.onWorld : Action ε α).run.run w = a.run.run w := rfl

lemma run_readBytes : (readBytes p : Action OsError Bytes).run.run w = (w.fs.read p, w) :=
  run_inspect _ w

lemma run_writeBytes_ok {content : Bytes} (h : w.fs.write p content = .ok fs) :
    (writeBytes p content : Action OsError Unit).run.run w = (.ok (), { w with fs }) := by
  simp only [writeBytes, run_change, HasFiles.files, HasFiles.withFiles, h]

lemma run_createDirectory_ok (h : w.fs.createDirectory p = .ok fs) :
    (createDirectory p : Action OsError Unit).run.run w = (.ok (), { w with fs }) := by
  simp only [createDirectory, run_change, HasFiles.files, HasFiles.withFiles, h]

lemma run_createDirectory_error (h : w.fs.createDirectory p = .error e) :
    (createDirectory p : Action OsError Unit).run.run w = (.error e, w) := by
  simp only [createDirectory, run_change, HasFiles.files, h]

lemma run_removeTree_ok (h : w.fs.removeTree p = .ok fs) :
    (removeTree p : Action OsError Unit).run.run w = (.ok (), { w with fs }) := by
  simp only [removeTree, run_change, HasFiles.files, HasFiles.withFiles, h]

end ConstPromotion.Attempt
