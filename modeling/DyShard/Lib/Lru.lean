import Mathlib.Data.List.Basic
import Mathlib.Tactic.Common

/-!
# Caches with least-recently-used eviction

What a cache answers depends on its whole history, so results about it go through an invariant of
its entries (`Holds`).
-/

/-- A cache: its capacity and its entries, the latest first. -/
structure Lru (κ ν : Type) where
  size : ℕ
  items : List (κ × ν) := []

namespace Lru

open List

variable {κ ν : Type} [DecidableEq κ]

/-- The entry of a key. -/
def find (c : Lru κ ν) (k : κ) : Option (κ × ν) := c.items.find? fun e => e.1 = k

/-- The entries without those of a key. -/
def others (c : Lru κ ν) (k : κ) : List (κ × ν) := c.items.filter fun e => e.1 ≠ k

/-- The value of a key, which becomes the most recent one. -/
def get (c : Lru κ ν) (k : κ) : Option ν × Lru κ ν :=
  match c.find k with
  | none => (none, c)
  | some e => (some e.2, { c with items := e :: c.others k })

/-- A key is given a value; the oldest entry goes if there is no room. -/
def add (c : Lru κ ν) (k : κ) (v : ν) : Lru κ ν :=
  { c with items := ((k, v) :: c.others k).take c.size }

/-- Every entry satisfies `P`. -/
def Holds (P : κ → ν → Prop) (c : Lru κ ν) : Prop := ∀ e ∈ c.items, P e.1 e.2

variable {P : κ → ν → Prop} {c : Lru κ ν} {k : κ}

omit [DecidableEq κ] in
theorem holds_empty (size : ℕ) : Holds P (⟨size, []⟩ : Lru κ ν) := nofun

theorem find_eq_some {e : κ × ν} (h : c.find k = some e) : e ∈ c.items ∧ e.1 = k :=
  ⟨mem_of_find?_eq_some h, by simpa using find?_some h⟩

theorem Holds.others (h : Holds P c) : ∀ e ∈ c.others k, P e.1 e.2 :=
  fun e he => h e (mem_of_mem_filter he)

theorem Holds.get (h : Holds P c) (k : κ) : Holds P (c.get k).2 := by
  unfold Lru.get
  cases hfind : c.find k with
  | none => exact h
  | some e =>
    intro e' he'
    rcases mem_cons.1 he' with rfl | he'
    · exact h _ (find_eq_some hfind).1
    · exact h.others e' he'

/-- **What is found is what was put.** -/
theorem Holds.of_get (h : Holds P c) {v : ν} (hget : (c.get k).1 = some v) : P k v := by
  unfold Lru.get at hget
  cases hfind : c.find k with
  | none => simp [hfind] at hget
  | some e =>
    obtain ⟨hmem, rfl⟩ := find_eq_some hfind
    rw [hfind] at hget
    cases hget
    exact h e hmem

theorem Holds.add (h : Holds P c) {v : ν} (hv : P k v) : Holds P (c.add k v) := by
  intro e he
  rcases mem_cons.1 (mem_of_mem_take he) with rfl | he
  · exact hv
  · exact h.others e he

omit [DecidableEq κ] in
theorem Holds.mono {Q : κ → ν → Prop} (h : Holds P c) (hPQ : ∀ k v, P k v → Q k v) : Holds Q c :=
  fun e he => hPQ _ _ (h e he)

end Lru
