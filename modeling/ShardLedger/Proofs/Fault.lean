import Mathlib.Data.List.Forall2
import ShardLedger.Fault

/-!
# Computations that may fail

A chain of computations succeeds exactly when all of its links do, and so does a
computation that is repeated over a list.
-/

namespace ShardLedger

variable {ε α β : Type}

@[simp]
theorem ok_bind (a : α) (f : α → Except ε β) : (Except.ok a >>= f) = f a := by
  -- Proved by cases, since a rewrite by a definitional equation makes the kernel evaluate `f a`.
  cases hresult : f a <;> exact hresult

@[simp]
theorem error_bind (fault : ε) (f : α → Except ε β) :
    (Except.error fault >>= f) = .error fault := rfl

@[simp]
theorem pure_eq_ok (a : α) : (pure a : Except ε α) = .ok a := rfl

@[simp]
theorem map_ok (f : α → β) (a : α) : (Except.ok a : Except ε α).map f = .ok (f a) := rfl

theorem bind_eq_ok_iff {x : Except ε α} {f : α → Except ε β} {b : β} :
    (x >>= f) = .ok b ↔ ∃ a, x = .ok a ∧ f a = .ok b := by
  cases x with
  | error fault => simp
  | ok a => simp

theorem bind_eq_error_iff {x : Except ε α} {f : α → Except ε β} {fault : ε} :
    (x >>= f) = .error fault ↔ x = .error fault ∨ ∃ a, x = .ok a ∧ f a = .error fault := by
  cases x with
  | error fault' => simp
  | ok a => simp

theorem map_eq_ok_iff {x : Except ε α} {f : α → β} {b : β} :
    x.map f = .ok b ↔ ∃ a, x = .ok a ∧ f a = b := by
  cases x with
  | error fault => simp [Except.map]
  | ok a => simp

theorem bind_ok_eq_map (x : Except ε α) (f : α → β) : (x >>= fun a => .ok (f a)) = x.map f := by
  cases x <;> rfl

theorem mapM_cons_eq_ok_iff {f : α → Except ε β} {x : α} {xs : List α} {ys : List β} :
    (x :: xs).mapM f = .ok ys ↔
      ∃ y rest, f x = .ok y ∧ xs.mapM f = .ok rest ∧ ys = y :: rest := by
  rw [List.mapM_cons]
  simp only [bind_eq_ok_iff, pure_eq_ok, Except.ok.injEq]
  constructor
  · rintro ⟨y, hy, rest, hrest, rfl⟩
    exact ⟨y, rest, hy, hrest, rfl⟩
  · rintro ⟨y, rest, hy, hrest, rfl⟩
    exact ⟨y, hy, rest, hrest, rfl⟩

/-- A computation repeated over a list succeeds exactly when it does so item by item. -/
theorem mapM_eq_ok_iff {f : α → Except ε β} {xs : List α} {ys : List β} :
    xs.mapM f = .ok ys ↔ List.Forall₂ (fun x y => f x = .ok y) xs ys := by
  induction xs generalizing ys with
  | nil =>
      rw [List.mapM_nil, pure_eq_ok, Except.ok.injEq, List.forall₂_nil_left_iff, eq_comm]
  | cons x xs ih =>
      rw [mapM_cons_eq_ok_iff, List.forall₂_cons_left_iff]
      simp only [ih]

/-- What comes out of it came out of one of the items. -/
theorem exists_of_mem_mapM {f : α → Except ε β} {xs : List α} {ys : List β}
    (hok : xs.mapM f = .ok ys) {y : β} (hmem : y ∈ ys) : ∃ x ∈ xs, f x = .ok y := by
  induction xs generalizing ys with
  | nil =>
      cases hok
      cases hmem
  | cons x xs ih =>
      obtain ⟨first, rest, hx, hrest, rfl⟩ := mapM_cons_eq_ok_iff.mp hok
      rcases List.mem_cons.mp hmem with rfl | hmem
      · exact ⟨x, List.mem_cons_self, hx⟩
      · obtain ⟨z, hz, hy⟩ := ih hrest hmem
        exact ⟨z, List.mem_cons_of_mem x hz, hy⟩

/-- It fails at one of the items. -/
theorem exists_error_of_mapM {f : α → Except ε β} {xs : List α} {fault : ε}
    (hfault : xs.mapM f = .error fault) : ∃ x ∈ xs, f x = .error fault := by
  induction xs with
  | nil => cases hfault
  | cons x xs ih =>
      rw [List.mapM_cons, bind_eq_error_iff] at hfault
      rcases hfault with hhere | ⟨y, -, hrest⟩
      · exact ⟨x, List.mem_cons_self, hhere⟩
      · rw [bind_eq_error_iff] at hrest
        rcases hrest with hrest | ⟨ys, -, hnone⟩
        · obtain ⟨z, hmem, hz⟩ := ih hrest
          exact ⟨z, List.mem_cons_of_mem x hmem, hz⟩
        · cases hnone

theorem exists_mapM_eq_ok {f : α → Except ε β} {xs : List α}
    (hall : ∀ x ∈ xs, ∃ y, f x = .ok y) : ∃ ys, xs.mapM f = .ok ys := by
  induction xs with
  | nil => exact ⟨[], rfl⟩
  | cons x xs ih =>
      obtain ⟨hx, hxs⟩ := List.forall_mem_cons.mp hall
      obtain ⟨y, hy⟩ := hx
      obtain ⟨rest, hrest⟩ := ih hxs
      exact ⟨y :: rest, mapM_cons_eq_ok_iff.mpr ⟨y, rest, hy, hrest, rfl⟩⟩

/-- Reading each item of a list that was written item by item gives the items back. -/
theorem mapM_map_eq_ok {f : β → Except ε α} {g : α → β} {xs : List α}
    (hinverse : ∀ x ∈ xs, f (g x) = .ok x) : (xs.map g).mapM f = .ok xs := by
  induction xs with
  | nil => rfl
  | cons x xs ih =>
      obtain ⟨hx, hxs⟩ := List.forall_mem_cons.mp hinverse
      rw [List.map_cons]
      exact mapM_cons_eq_ok_iff.mpr ⟨x, xs, hx, ih hxs, rfl⟩

end ShardLedger
