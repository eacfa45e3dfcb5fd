import Mathlib.Data.List.Perm.Basic
import Mathlib.Data.List.Sort
import Mathlib.Tactic.Common

/-!
# Maps sorted by a numeric key

A map from numbers to values that carry their own key, kept as the list of its values in the order
of the keys.  Operations that take entries out are splits of the map.
-/

/-- The values of a map, in the order of their keys. -/
structure SortedMap {α : Type} (key : α → ℕ) where
  items : List α
  sorted : items.Pairwise fun a b => key a < key b

namespace SortedMap

open List

variable {α : Type} {key : α → ℕ}

/-! ## Operations -/

/-- The map without entries. -/
def empty : SortedMap key := ⟨[], .nil⟩

variable (m : SortedMap key)

/-- The entry with a key. -/
def get (k : ℕ) : Option α := m.items.find? fun a => key a == k

theorem sorted_put (a : α) :
    (m.items.filter (key · < key a) ++ a :: m.items.filter (key a < key ·)).Pairwise
      fun a b => key a < key b := by
  rw [pairwise_append, pairwise_cons]
  refine ⟨m.sorted.filter _, ⟨?_, m.sorted.filter _⟩, ?_⟩
  · intro b hb
    simpa using (mem_filter.1 hb).2
  · intro b hb c hc
    have hba : key b < key a := by simpa using (mem_filter.1 hb).2
    rcases mem_cons.1 hc with rfl | hc
    · exact hba
    · have hac : key a < key c := by simpa using (mem_filter.1 hc).2
      exact hba.trans hac

/-- Write an entry; one with the same key is overwritten. -/
def put (a : α) : SortedMap key :=
  ⟨m.items.filter (key · < key a) ++ a :: m.items.filter (key a < key ·), m.sorted_put a⟩

/-- Take out the entries that meet a test. -/
def filterOut (p : α → Bool) : List α × SortedMap key :=
  (m.items.filter p, ⟨m.items.filter (fun a => !p a), m.sorted.filter _⟩)

/-- Take out the entries below a key. -/
def forward (threshold : ℕ) : List α × SortedMap key :=
  m.filterOut fun a => key a < threshold

/-- Keep the lowest entries only; the others come out highest first. -/
def cap (threshold : ℕ) : List α × SortedMap key :=
  ((m.items.drop threshold).reverse, ⟨m.items.take threshold, m.sorted.sublist (take_sublist _ _)⟩)

/-- Delete the entry with a key. -/
def remove (k : ℕ) : SortedMap key :=
  ⟨m.items.filter (key · != k), m.sorted.filter _⟩

/-- The longest run of consecutive keys from `next` on at the front of a list. -/
def run (key : α → ℕ) : ℕ → List α → List α
  | _, [] => []
  | next, a :: as => if key a = next then a :: run key (next + 1) as else []

/-- Take out the run of consecutive keys at the front, unless it starts after `start`. -/
def ready (start : ℕ) : List α × SortedMap key :=
  match m.items with
  | [] => ([], m)
  | a :: _ =>
    if start < key a then ([], m)
    else (run key (key a) m.items, ⟨m.items.drop (run key (key a) m.items).length,
      m.sorted.sublist (drop_sublist _ _)⟩)

/-! ## Entries and keys -/

theorem nodup_keys : (m.items.map key).Nodup := by
  rw [Nodup, pairwise_map]
  exact m.sorted.imp fun h => h.ne

variable {a : α} {m : SortedMap key} {k : ℕ}

theorem eq_of_key (m : SortedMap key) {b : α} (ha : a ∈ m.items) (hb : b ∈ m.items)
    (h : key a = key b) : a = b := inj_on_of_nodup_map m.nodup_keys ha hb h

theorem get_eq_some : m.get k = some a ↔ a ∈ m.items ∧ key a = k := by
  constructor
  · intro h
    exact ⟨mem_of_find?_eq_some h, by simpa using find?_some h⟩
  · rintro ⟨ha, rfl⟩
    cases hget : m.get (key a) with
    | none =>
      have hne : key a ≠ key a := by simpa using find?_eq_none.1 hget a ha
      exact absurd rfl hne
    | some b =>
      have hb : key b = key a := by simpa using find?_some hget
      rw [m.eq_of_key (mem_of_find?_eq_some hget) ha hb]

theorem get_eq_none : m.get k = none ↔ ∀ a ∈ m.items, key a ≠ k := by
  unfold get
  simp

theorem mem_put {b : α} : b ∈ (m.put a).items ↔ b = a ∨ b ∈ m.items ∧ key b ≠ key a := by
  simp only [put, mem_append, mem_cons, mem_filter, decide_eq_true_eq]
  have htri : key b ≠ key a ↔ key b < key a ∨ key a < key b := lt_or_lt_iff_ne.symm
  tauto

@[simp] theorem mem_remove : a ∈ (m.remove k).items ↔ a ∈ m.items ∧ key a ≠ k := by
  simp [remove]

theorem put_remove (m : SortedMap key) (a : α) : (m.remove (key a)).put a = m.put a := by
  have hlow : (m.remove (key a)).items.filter (key · < key a) = m.items.filter (key · < key a) := by
    rw [remove, filter_filter]
    refine filter_congr fun b _ => ?_
    by_cases h : key b < key a
    · simp [h, h.ne]
    · simp [h]
  have hhigh : (m.remove (key a)).items.filter (key a < key ·) = m.items.filter (key a < key ·) := by
    rw [remove, filter_filter]
    refine filter_congr fun b _ => ?_
    by_cases h : key a < key b
    · simp [h, h.ne']
    · simp [h]
  unfold put
  rw [SortedMap.mk.injEq, hlow, hhigh]

@[simp] theorem mem_filterOut_fst {p : α → Bool} :
    a ∈ (m.filterOut p).1 ↔ a ∈ m.items ∧ p a = true := mem_filter

@[simp] theorem mem_filterOut_snd {p : α → Bool} :
    a ∈ (m.filterOut p).2.items ↔ a ∈ m.items ∧ p a = false := by
  simp [filterOut]

theorem mem_forward_snd {threshold : ℕ} :
    a ∈ (m.forward threshold).2.items ↔ a ∈ m.items ∧ threshold ≤ key a := by
  simp [forward]

/-! ## Taking entries out -/

/-- `m` falls apart into `out` and `m'`. -/
def Split (m : SortedMap key) (out : List α) (m' : SortedMap key) : Prop :=
  (out ++ m'.items).Perm m.items

namespace Split

variable {m m' m'' : SortedMap key} {out out' : List α}

theorem refl (m : SortedMap key) : Split m [] m := Perm.refl m.items

section

variable (h : Split m out m')
include h

theorem trans (h' : Split m' out' m'') : Split m (out ++ out') m'' := by
  unfold Split
  rw [append_assoc]
  exact (Perm.append_left out h').trans h

theorem mem_iff {a : α} : a ∈ m.items ↔ a ∈ out ∨ a ∈ m'.items := by
  rw [← Perm.mem_iff h, mem_append]

theorem nodup : ((out ++ m'.items).map key).Nodup :=
  (h.map key).nodup_iff.2 m.nodup_keys

theorem nodup_out : (out.map key).Nodup := by
  have hall := h.nodup
  rw [map_append] at hall
  exact hall.of_append_left

theorem key_ne {a b : α} (ha : a ∈ out) (hb : b ∈ m'.items) : key a ≠ key b := by
  have hall := h.nodup
  rw [map_append] at hall
  exact fun he => disjoint_of_nodup_append hall (mem_map_of_mem ha) (he ▸ mem_map_of_mem hb)

end

end Split

theorem split_filterOut (m : SortedMap key) (p : α → Bool) :
    Split m (m.filterOut p).1 (m.filterOut p).2 := filter_append_perm p m.items

theorem split_forward (m : SortedMap key) (threshold : ℕ) :
    Split m (m.forward threshold).1 (m.forward threshold).2 := m.split_filterOut _

theorem split_cap (m : SortedMap key) (threshold : ℕ) :
    Split m (m.cap threshold).1 (m.cap threshold).2 := by
  have hparts : (m.items.drop threshold ++ m.items.take threshold).Perm m.items := by
    conv_rhs => rw [← take_append_drop threshold m.items]
    exact perm_append_comm
  exact (Perm.append_right _ (reverse_perm _)).trans hparts

theorem split_remove (h : m.get k = some a) : Split m [a] (m.remove k) := by
  obtain ⟨ha, hk⟩ := get_eq_some.1 h
  have hnodup : m.items.Nodup := Nodup.of_map key m.nodup_keys
  refine (perm_ext_iff_of_nodup ?_ hnodup).2 ?_
  · rw [singleton_append, nodup_cons]
    exact ⟨fun hmem => (mem_remove.1 hmem).2 hk, hnodup.filter _⟩
  · intro b
    rw [singleton_append, mem_cons, mem_remove]
    constructor
    · rintro (rfl | ⟨hb, -⟩)
      · exact ha
      · exact hb
    · intro hb
      by_cases hkb : key b = k
      · exact .inl (m.eq_of_key hb ha (hkb.trans hk.symm))
      · exact .inr ⟨hb, hkb⟩

theorem run_append_drop (key : α → ℕ) (next : ℕ) (as : List α) :
    run key next as ++ as.drop (run key next as).length = as := by
  induction as generalizing next with
  | nil => rfl
  | cons a as ih =>
    unfold run
    split
    · simpa using ih (next + 1)
    · rfl

theorem split_ready (m : SortedMap key) (start : ℕ) :
    Split m (m.ready start).1 (m.ready start).2 := by
  unfold ready
  split
  · exact .refl m
  · split
    · exact .refl m
    · rw [Split, run_append_drop]

theorem keys_run (key : α → ℕ) (next : ℕ) (as : List α) :
    (run key next as).map key = range' next (run key next as).length := by
  induction as generalizing next with
  | nil => rfl
  | cons a as ih =>
    unfold run
    split
    case isTrue h => rw [map_cons, ih, h, length_cons, range'_succ]
    case isFalse => rfl

theorem keys_ready (m : SortedMap key) (start : ℕ) :
    ∃ first, (m.ready start).1.map key = range' first (m.ready start).1.length ∧
      ((m.ready start).1 ≠ [] → first ≤ start) := by
  unfold ready
  split
  · exact ⟨0, rfl, fun h => absurd rfl h⟩
  · split
    case isTrue => exact ⟨0, rfl, fun h => absurd rfl h⟩
    case isFalse h => exact ⟨_, keys_run key _ _, fun _ => not_lt.1 h⟩

/-! ## Consecutive keys -/

/-- The keys are consecutive and start with `n`. -/
def Contiguous (n : ℕ) (m : SortedMap key) : Prop :=
  ∀ a ∈ m.items, n ≤ key a ∧ ∀ k, n ≤ k → k ≤ key a → ∃ b ∈ m.items, key b = k

namespace Contiguous

variable {n : ℕ} {m m' : SortedMap key}

theorem of_empty (h : m.items = []) : Contiguous n m := by
  intro a ha
  rw [h] at ha
  cases ha

theorem of_lower (h : Contiguous n m) (hsub : ∀ a ∈ m'.items, a ∈ m.items)
    (hlower : ∀ a ∈ m'.items, ∀ b ∈ m.items, key b ≤ key a → b ∈ m'.items) :
    Contiguous n m' := by
  intro a ha
  obtain ⟨hn, hall⟩ := h a (hsub a ha)
  refine ⟨hn, fun k hnk hka => ?_⟩
  obtain ⟨b, hb, rfl⟩ := hall k hnk hka
  exact ⟨b, hlower a ha b hb hka, rfl⟩

theorem forward (h : Contiguous n m) (n' : ℕ) : Contiguous (max n n') (m.forward n').2 := by
  intro a ha
  obtain ⟨ha, hna⟩ := mem_forward_snd.1 ha
  refine ⟨max_le (h a ha).1 hna, fun k hk hka => ?_⟩
  obtain ⟨b, hb, rfl⟩ := (h a ha).2 k ((le_max_left _ _).trans hk) hka
  exact ⟨b, mem_forward_snd.2 ⟨hb, (le_max_right _ _).trans hk⟩, rfl⟩

theorem keys_eq (h : Contiguous n m) : m.items.map key = range' n m.items.length := by
  obtain ⟨items, hsorted⟩ := m
  induction items generalizing n with
  | nil => rfl
  | cons a as ih =>
    obtain ⟨hlt, hsorted'⟩ := pairwise_cons.1 hsorted
    have hmem : a ∈ (⟨a :: as, hsorted⟩ : SortedMap key).items := mem_cons_self
    have hfirst : key a = n := by
      obtain ⟨b, hb, hbn⟩ := (h a hmem).2 n le_rfl (h a hmem).1
      have hna := (h a hmem).1
      rcases mem_cons.1 hb with rfl | hb
      · exact hbn
      · have hab := hlt b hb
        omega
    have hrest : Contiguous (n + 1) (⟨as, hsorted'⟩ : SortedMap key) := by
      intro b hb
      have hb' : b ∈ as := hb
      refine ⟨hfirst ▸ hlt b hb', fun k hk hkb => ?_⟩
      obtain ⟨c, hc, rfl⟩ := (h b (mem_cons_of_mem a hb')).2 k (by omega) hkb
      rcases mem_cons.1 hc with rfl | hc
      · omega
      · exact ⟨c, hc, rfl⟩
    have hkeys := ih hsorted' hrest
    rw [map_cons, hfirst, length_cons, range'_succ]
    exact congrArg (n :: ·) hkeys

end Contiguous

end SortedMap
