import Mathlib.Data.List.Basic
import Mathlib.Logic.Basic

/-!
# Loads

A `Load` is a value computed from a memory together with the addresses it is computed from, and
carries the proof that nothing else matters. Two memories that agree on the addresses of a load give
it the same value (`Load.eval_congr`), so a kernel written with loads reads what its address list
says.
-/

namespace Loads

variable {A : Type*} {V : A → Type*} {α β γ : Type*}

/-- A value computed from the memory at `addrs`. Cell `a` holds a `V a`. -/
structure Load (V : A → Type*) (α : Type*) where
  addrs : List A
  eval : (∀ a, V a) → α
  eval_congr : ∀ {m m' : ∀ a, V a}, (∀ a ∈ addrs, m a = m' a) → eval m = eval m'

namespace Load

/-- A value that needs no memory. -/
def const (x : α) : Load V α := ⟨[], fun _ => x, fun _ => rfl⟩

/-- One cell. -/
def cell (a : A) : Load V (V a) := ⟨[a], fun m => m a, fun h => h a List.mem_cons_self⟩

def map (f : α → β) (x : Load V α) : Load V β :=
  ⟨x.addrs, fun m => f (x.eval m), fun h => congrArg f (x.eval_congr h)⟩

def map₂ (f : α → β → γ) (x : Load V α) (y : Load V β) : Load V γ :=
  ⟨x.addrs ++ y.addrs, fun m => f (x.eval m) (y.eval m), fun h => congrArg₂ f
    (x.eval_congr fun a ha => h a (List.mem_append_left _ ha))
    (y.eval_congr fun a ha => h a (List.mem_append_right _ ha))⟩

/-- A load that happens only where `mask` holds. -/
def guard (mask : Bool) (x : Load V α) (other : α) : Load V α := if mask then x else const other

/-- A cell that is loaded only where `mask` holds. -/
def masked (mask : Bool) (a : A) (other : V a) : Load V (V a) := guard mask (cell a) other

/-- The loads of `l`, one after the other. -/
def list : List (Load V α) → Load V (List α)
  | [] => const []
  | x :: l => map₂ List.cons x (list l)

section Eval

variable (m : ∀ a, V a)

@[simp] theorem eval_const (x : α) : (const x : Load V α).eval m = x := rfl

@[simp] theorem eval_cell (a : A) : (cell a : Load V (V a)).eval m = m a := rfl

@[simp] theorem eval_map (f : α → β) (x : Load V α) : (x.map f).eval m = f (x.eval m) := rfl

@[simp] theorem eval_map₂ (f : α → β → γ) (x : Load V α) (y : Load V β) :
    (map₂ f x y).eval m = f (x.eval m) (y.eval m) := rfl

@[simp] theorem eval_guard (mask : Bool) (x : Load V α) (other : α) :
    (guard mask x other).eval m = if mask then x.eval m else other := by
  cases mask <;> rfl

@[simp] theorem eval_masked (mask : Bool) (a : A) (other : V a) :
    (masked mask a other).eval m = if mask then m a else other := by
  cases mask <;> rfl

@[simp] theorem eval_list : ∀ l : List (Load V α), (list l).eval m = l.map fun x => x.eval m
  | [] => rfl
  | _ :: l => congrArg (List.cons _) (eval_list l)

end Eval

section Addrs

variable {a b : A}

@[simp] theorem addrs_const (x : α) : (const x : Load V α).addrs = [] := rfl

@[simp] theorem addrs_cell (a : A) : (cell a : Load V (V a)).addrs = [a] := rfl

@[simp] theorem addrs_map (f : α → β) (x : Load V α) : (x.map f).addrs = x.addrs := rfl

@[simp] theorem addrs_map₂ (f : α → β → γ) (x : Load V α) (y : Load V β) :
    (map₂ f x y).addrs = x.addrs ++ y.addrs := rfl

@[simp] theorem mem_addrs_guard {mask : Bool} {x : Load V α} {other : α} :
    a ∈ (guard mask x other).addrs ↔ mask = true ∧ a ∈ x.addrs := by
  cases mask <;> simp [guard]

@[simp] theorem mem_addrs_masked {mask : Bool} {other : V b} :
    a ∈ (masked mask b other).addrs ↔ mask = true ∧ a = b := by
  cases mask <;> simp [masked, guard]

@[simp] theorem mem_addrs_list : ∀ {l : List (Load V α)}, a ∈ (list l).addrs ↔
    ∃ x ∈ l, a ∈ x.addrs
  | [] => by simp [list]
  | x :: l => by simp [list, mem_addrs_list (l := l)]

end Addrs

end Load

end Loads
