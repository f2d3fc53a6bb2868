import Mathlib

/-!
# Lists as tables indexed by position

A table of parties is a list in which a step replaces the entry at one position. These lemmas say what
that does to a count over the table and to the other positions.
-/

namespace InferenceGateway.Common

variable {α : Type*}

/-- Replacing entry `a` by `b` trades `a`'s contribution to a count for `b`'s. -/
theorem countP_set_add {l : List α} {i : ℕ} {a : α} (h : l[i]? = some a) (b : α) (p : α → Bool) :
    (l.set i b).countP p + (if p a then 1 else 0) = l.countP p + (if p b then 1 else 0) := by
  obtain ⟨hi, rfl⟩ := List.getElem?_eq_some_iff.mp h
  rw [List.countP_set hi]
  by_cases hp : p l[i] = true
  · have : 0 < l.countP p := List.countP_pos_iff.mpr ⟨l[i], List.getElem_mem hi, hp⟩
    simp only [hp, if_true]
    omega
  · simp [hp]

/-- A count does not change when the entry put in counts as the one taken out. -/
theorem countP_set_of_eq {l : List α} {i : ℕ} {a b : α} {p : α → Bool} (h : l[i]? = some a)
    (hab : p b = p a) : (l.set i b).countP p = l.countP p := by
  have := countP_set_add h b p
  rw [hab] at this
  omega

/-- A map over the table does not change when the entry put in maps to the same value. -/
theorem map_set_of_eq {β : Type*} {l : List α} {i : ℕ} {a b : α} {f : α → β} (h : l[i]? = some a)
    (hab : f b = f a) : (l.set i b).map f = l.map f := by
  obtain ⟨hi, rfl⟩ := List.getElem?_eq_some_iff.mp h
  rw [List.map_set, hab, ← List.getElem_map f (h := by simpa using hi), List.set_getElem_self]

/-- A map over the table does not change when an entry is changed to one that maps to the same value. -/
theorem map_modify_of_eq {β : Type*} (l : List α) (i : ℕ) {f : α → α} {g : α → β}
    (hg : ∀ a, g (f a) = g a) : (l.modify i f).map g = l.map g := by
  refine List.ext_getElem? fun k => ?_
  rw [List.getElem?_map, List.getElem?_map, List.getElem?_modify]
  cases l[k]? with
  | none => rfl
  | some a =>
    rw [Option.map_eq_map, Option.map_some, Option.map_some, Option.map_some]
    split
    · rw [hg]
    · rfl

/-- Replacing entry `a` by `b` changes a sum over the table by the difference. -/
theorem sum_map_set {l : List α} {i : ℕ} {a : α} (h : l[i]? = some a) (b : α) (f : α → ℤ) :
    ((l.set i b).map f).sum = (l.map f).sum + (f b - f a) := by
  obtain ⟨hi, rfl⟩ := List.getElem?_eq_some_iff.mp h
  rw [List.map_set, List.sum_set', dif_pos (by simpa using hi), List.getElem_map]
  omega

/-- Replacing entry `a` by `b` trades `a`'s contribution to a sum for `b`'s. -/
theorem natSum_map_set {l : List α} {i : ℕ} {a : α} (h : l[i]? = some a) (b : α) (f : α → ℕ) :
    ((l.set i b).map f).sum + f a = (l.map f).sum + f b := by
  have hint := sum_map_set h b fun x => (f x : ℤ)
  have hcast : ∀ l : List α, ((l.map f).sum : ℤ) = (l.map fun x => (f x : ℤ)).sum := by
    intro l
    rw [Nat.cast_list_sum, List.map_map]
    rfl
  rw [← hcast, ← hcast] at hint
  omega

/-- An entry that gains one element makes the concatenation of the table gain it. -/
theorem flatMap_set_perm {β : Type*} {l : List α} {i : ℕ} {a b : α} {f : α → List β} {x : β}
    (h : l[i]? = some a) (hab : f b = f a ++ [x]) :
    ((l.set i b).flatMap f).Perm (l.flatMap f ++ [x]) := by
  obtain ⟨hi, rfl⟩ := List.getElem?_eq_some_iff.mp h
  have hl : l = l.take i ++ l[i] :: l.drop (i + 1) := by
    rw [List.cons_getElem_drop_succ, List.take_append_drop]
  rw [List.set_eq_take_append_cons_drop, if_pos hi, List.flatMap_append, List.flatMap_cons, hab]
  conv_rhs => rw [hl, List.flatMap_append, List.flatMap_cons]
  rw [List.append_assoc, List.append_assoc, List.append_assoc]
  refine List.Perm.append_left _ (List.Perm.append_left _ ?_)
  exact List.perm_append_comm

/-- A sum of zeros and ones counts the ones. -/
theorem natSum_map_ite_eq_countP (l : List α) (p : α → Bool) :
    (l.map fun a => if p a then 1 else 0).sum = l.countP p := by
  induction l with
  | nil => rfl
  | cons a l ih => rw [List.map_cons, List.sum_cons, List.countP_cons, ih, Nat.add_comm]

theorem sum_map_ite_eq_countP (l : List α) (p : α → Bool) :
    (l.map fun a => if p a then (1 : ℤ) else 0).sum = l.countP p := by
  rw [← natSum_map_ite_eq_countP, Nat.cast_list_sum, List.map_map]
  congr 2
  funext a
  rw [Function.comp_apply]
  split <;> rfl

/-- The entry that was put in. -/
theorem getElem?_set_of_some {l : List α} {i : ℕ} {a : α} (h : l[i]? = some a) (b : α) :
    (l.set i b)[i]? = some b := by
  rw [List.getElem?_set_self', h]
  rfl

/-- Two entries of a table with the same key are at one position, when keys are not repeated. -/
theorem eq_of_map_eq_of_nodup {β : Type*} {l : List α} {f : α → β} (hl : (l.map f).Nodup) {i k : ℕ}
    {a b : α} (hi : l[i]? = some a) (hk : l[k]? = some b) (hab : f a = f b) : i = k := by
  obtain ⟨hi', -⟩ := List.getElem?_eq_some_iff.mp hi
  refine (List.getElem?_inj (by simpa using hi') hl).mp ?_
  rw [List.getElem?_map, List.getElem?_map, hi, hk, Option.map_some, Option.map_some, hab]

/-- Reading a table after one entry was replaced. -/
theorem getElem?_set_eq_some {l : List α} {i k : ℕ} {b c : α} (h : (l.set i b)[k]? = some c) :
    (k = i ∧ c = b) ∨ (k ≠ i ∧ l[k]? = some c) := by
  by_cases hk : i = k
  · subst hk
    rw [List.getElem?_set_self'] at h
    obtain ⟨_, -, rfl⟩ := Option.map_eq_some_iff.mp h
    exact .inl ⟨rfl, rfl⟩
  · rw [List.getElem?_set_ne hk] at h
    exact .inr ⟨Ne.symm hk, h⟩

/-- Reading a table after one entry was changed in place. -/
theorem getElem?_modify_eq_some {l : List α} {i k : ℕ} {f : α → α} {c : α}
    (h : (l.modify i f)[k]? = some c) :
    ∃ a, l[k]? = some a ∧ ((k = i ∧ c = f a) ∨ (k ≠ i ∧ c = a)) := by
  rw [List.getElem?_modify, Option.map_eq_map, Option.map_eq_some_iff] at h
  obtain ⟨a, ha, rfl⟩ := h
  by_cases hk : i = k
  · exact ⟨a, ha, .inl ⟨hk.symm, if_pos hk⟩⟩
  · exact ⟨a, ha, .inr ⟨Ne.symm hk, if_neg hk⟩⟩

/-- An entry of a list with one more at its end is that one or an entry of the list. -/
theorem append_singleton_eq_append_cons {l before after : List α} {a b : α}
    (h : l ++ [b] = before ++ a :: after) : (before = l ∧ a = b) ∨ ∃ after', l = before ++ a :: after' := by
  rcases List.eq_nil_or_concat after with rfl | ⟨after', c, rfl⟩
  · obtain ⟨rfl, hlast⟩ := List.append_inj' h rfl
    exact .inl ⟨rfl, (List.singleton_inj.mp hlast).symm⟩
  · rw [List.concat_eq_append, ← List.cons_append, ← List.append_assoc] at h
    exact .inr ⟨after', (List.append_inj' h rfl).1⟩

/-- Reading a table after one entry was added. -/
theorem getElem?_append_singleton {l : List α} {k : ℕ} {b c : α} (h : (l ++ [b])[k]? = some c) :
    (k = l.length ∧ c = b) ∨ l[k]? = some c := by
  rw [List.getElem?_append] at h
  split at h
  · exact .inr h
  · rw [List.getElem?_singleton] at h
    split at h
    · cases h; exact .inl ⟨by omega, rfl⟩
    · cases h

/-! ## Tables whose entries only move forward -/

/-- Every entry of `l` is still in `l'` at its position, up to `R`; `l'` may have more entries. -/
def Extends (R : α → α → Prop) (l l' : List α) : Prop :=
  ∀ (k : ℕ) (a : α), l[k]? = some a → ∃ b, l'[k]? = some b ∧ R a b

namespace Extends

variable {R : α → α → Prop} {l : List α}

theorem refl (hR : ∀ a, R a a) (l : List α) : Extends R l l := fun _ a h => ⟨a, h, hR a⟩

theorem append (hR : ∀ a, R a a) (l r : List α) : Extends R l (l ++ r) := by
  intro k a h
  obtain ⟨hk, -⟩ := List.getElem?_eq_some_iff.mp h
  exact ⟨a, by rw [List.getElem?_append_left hk, h], hR a⟩

theorem set (hR : ∀ a, R a a) {i : ℕ} {a b : α} (hi : l[i]? = some a) (hab : R a b) :
    Extends R l (l.set i b) := by
  intro k c hc
  by_cases hk : i = k
  · subst hk
    rw [hi] at hc
    cases hc
    exact ⟨b, getElem?_set_of_some hi b, hab⟩
  · exact ⟨c, by rw [List.getElem?_set_ne hk, hc], hR c⟩

theorem modify (hR : ∀ a, R a a) (i : ℕ) {f : α → α} (hf : ∀ a, R a (f a)) :
    Extends R l (l.modify i f) := by
  intro k a h
  rw [List.getElem?_modify, h]
  by_cases hk : i = k
  · exact ⟨f a, by simp [hk], hf a⟩
  · exact ⟨a, by simp [hk], hR a⟩

end Extends

end InferenceGateway.Common
