import Mathlib

/-!
# Searching a text for a pattern

`indexOf pat s` is the position of the first occurrence of `pat` in `s`, and `after pat s` the text behind
it. To compute them on a text that is known only in parts, one walks over the parts: `NoStart pat pre
rest` says that no occurrence of `pat` in `pre ++ rest` starts within `pre`, so that the search may skip
`pre`.
-/

namespace InferenceGateway.Common

variable {α : Type*}

/-! ## Stretches without an occurrence -/

/-- No occurrence of `pat` in `pre ++ rest` starts in `pre`. -/
def NoStart (pat : List α) : List α → List α → Prop
  | [], _ => True
  | a :: pre, rest => ¬ pat <+: a :: (pre ++ rest) ∧ NoStart pat pre rest

variable {pat pre rest : List α}

@[simp] theorem noStart_nil (pat rest : List α) : NoStart pat [] rest := trivial

theorem noStart_append {p q : List α} :
    NoStart pat (p ++ q) rest ↔ NoStart pat p (q ++ rest) ∧ NoStart pat q rest := by
  induction p with
  | nil => simp
  | cons a p ih => simp only [List.cons_append, NoStart, ih, List.append_assoc, and_assoc]

/-- Position by position. -/
theorem noStart_iff : NoStart pat pre rest ↔ ∀ u a v, pre = u ++ a :: v → ¬ pat <+: a :: (v ++ rest) := by
  induction pre with
  | nil => exact ⟨fun _ u a v h => absurd h (by simp), fun _ => trivial⟩
  | cons b pre ih =>
    rw [NoStart, ih]
    constructor
    · rintro ⟨hb, hpre⟩ u a v h
      cases u with
      | nil =>
        rw [List.nil_append, List.cons.injEq] at h
        rw [← h.1, ← h.2]
        exact hb
      | cons c u =>
        rw [List.cons_append, List.cons.injEq] at h
        exact hpre u a v h.2
    · intro h
      exact ⟨h [] b pre rfl, fun u a v heq => h (b :: u) a v (by rw [heq, List.cons_append])⟩

/-- A pattern does not start where its first letter does not occur. -/
theorem noStart_of_head_not_mem {a : α} (h : a ∉ pre) : NoStart (a :: pat) pre rest := by
  induction pre with
  | nil => trivial
  | cons b pre ih =>
    rw [List.mem_cons, not_or] at h
    refine ⟨fun hpre => h.1 ?_, ih h.2⟩
    exact (List.cons_prefix_cons.mp hpre).1

/-- A longer pattern starts at fewer positions. -/
theorem NoStart.extend (h : NoStart pat pre rest) (more : List α) : NoStart (pat ++ more) pre rest := by
  induction pre with
  | nil => trivial
  | cons a pre ih => exact ⟨fun hpre => h.1 ((List.prefix_append _ _).trans hpre), ih h.2⟩

/-- A pattern without `c` does not reach past a `c`. -/
theorem prefix_of_prefix_append_cons {c : α} (hc : c ∉ pat) (h : pat <+: pre ++ c :: rest) :
    pat <+: pre := by
  by_cases hle : pat.length ≤ pre.length
  · exact List.prefix_of_prefix_length_le h (List.prefix_append _ _) hle
  · have hreach : pre ++ [c] <+: pat := by
      refine List.prefix_of_prefix_length_le ⟨rest, ?_⟩ h ?_
      · rw [List.append_assoc, List.singleton_append]
      · rw [List.length_append, List.length_singleton]
        omega
    exact absurd (hreach.subset (List.mem_append_right _ List.mem_cons_self)) hc

/-! ## The search -/

variable [DecidableEq α]

/-- The position of the first occurrence of `pat`. -/
def indexOf (pat : List α) : List α → Option ℕ
  | [] => if pat = [] then some 0 else none
  | a :: s => if pat <+: a :: s then some 0 else (indexOf pat s).map (· + 1)

/-- The text behind the first occurrence of `pat`. -/
def after (pat s : List α) : Option (List α) := (indexOf pat s).map fun i => s.drop (i + pat.length)

/-- The text before the first occurrence of `pat`; all of it if there is none. -/
def before (pat s : List α) : List α :=
  match indexOf pat s with
  | none => s
  | some i => s.take i

/-- The part of a text before the first `c`. -/
def upTo (c : α) (s : List α) : List α := s.takeWhile fun a => decide (a ≠ c)

/-! ## Where an occurrence is found -/

theorem prefix_of_indexOf_eq_some {pat s : List α} {i : ℕ} (h : indexOf pat s = some i) :
    i ≤ s.length ∧ pat <+: s.drop i := by
  induction s generalizing i with
  | nil =>
    simp only [indexOf] at h
    split at h
    · cases h; subst pat; simp
    · cases h
  | cons a s ih =>
    simp only [indexOf] at h
    split at h
    · cases h; exact ⟨Nat.zero_le _, ‹_›⟩
    · obtain ⟨j, hj, rfl⟩ := Option.map_eq_some_iff.mp h
      obtain ⟨hle, hpre⟩ := ih hj
      exact ⟨Nat.succ_le_succ hle, hpre⟩

/-- An occurrence lies within the text. -/
theorem add_length_le_of_indexOf_eq_some {pat s : List α} {i : ℕ} (h : indexOf pat s = some i) :
    i + pat.length ≤ s.length := by
  obtain ⟨hle, hpre⟩ := prefix_of_indexOf_eq_some h
  have := hpre.length_le
  rw [List.length_drop] at this
  omega

theorem indexOf_singleton_eq_none {c : α} {s : List α} (h : indexOf [c] s = none) : c ∉ s := by
  induction s with
  | nil => exact List.not_mem_nil
  | cons a s ih =>
    simp only [indexOf] at h
    split at h
    · cases h
    · rename_i hpre
      rw [List.cons_prefix_cons, not_and] at hpre
      rw [List.mem_cons, not_or]
      exact ⟨fun hc => hpre hc List.nil_prefix, ih (Option.map_eq_none_iff.mp h)⟩

/-- Cutting at the position of the first `c`. -/
theorem take_of_indexOf_singleton {c : α} {s : List α} {i : ℕ} (h : indexOf [c] s = some i) :
    s.take i = upTo c s := by
  induction s generalizing i with
  | nil => cases h
  | cons a s ih =>
    simp only [indexOf, List.cons_prefix_cons, List.nil_prefix, and_true] at h
    split at h
    · cases h; subst a; simp [upTo]
    · rename_i hne
      obtain ⟨j, hj, rfl⟩ := Option.map_eq_some_iff.mp h
      rw [List.take_succ_cons, ih hj, upTo, upTo, List.takeWhile_cons_of_pos (by simpa using Ne.symm hne)]

theorem upTo_append_cons (c : α) (s rest : List α) : upTo c (s ++ c :: rest) = upTo c s := by
  induction s with
  | nil => simp [upTo]
  | cons a s ih =>
    by_cases ha : a = c
    · simp [upTo, ha]
    · rw [List.cons_append, upTo, upTo, List.takeWhile_cons_of_pos (by simp [ha]),
        List.takeWhile_cons_of_pos (by simp [ha])]
      exact congrArg _ ih

theorem upTo_of_not_mem {c : α} {s : List α} (h : c ∉ s) : upTo c s = s := by
  refine List.takeWhile_eq_self_iff.mpr fun a ha => ?_
  rw [decide_eq_true_eq]
  exact fun hac => h (hac ▸ ha)

/-- A text up to its first `c` is determined by what it starts with. -/
theorem eq_of_append_cons_eq {c : α} {s t u v : List α} (hs : c ∉ s) (ht : c ∉ t)
    (h : s ++ c :: u = t ++ c :: v) : s = t := by
  have hupTo := congrArg (upTo c) h
  rwa [upTo_append_cons, upTo_append_cons, upTo_of_not_mem hs, upTo_of_not_mem ht] at hupTo

theorem mem_of_indexOf_singleton {c : α} {s : List α} {i : ℕ} (h : indexOf [c] s = some i) : c ∈ s := by
  obtain ⟨-, hpre⟩ := prefix_of_indexOf_eq_some h
  exact List.mem_of_mem_drop (hpre.subset List.mem_cons_self)

/-! ## Searching past a stretch -/

theorem indexOf_skip (h : NoStart pat pre rest) :
    indexOf pat (pre ++ rest) = (indexOf pat rest).map (· + pre.length) := by
  induction pre with
  | nil => simp
  | cons a pre ih =>
    rw [List.cons_append, indexOf, if_neg h.1, ih h.2, Option.map_map, List.length_cons]
    exact congrArg (fun f => (indexOf pat rest).map f) (funext fun i => by simp; omega)

theorem indexOf_append_self (pat rest : List α) : indexOf pat (pat ++ rest) = some 0 := by
  cases hs : pat ++ rest with
  | nil => simp [indexOf, (List.append_eq_nil_iff.mp hs).1]
  | cons a s => rw [indexOf, if_pos (hs ▸ List.prefix_append pat rest)]

theorem indexOf_of_noStart (h : NoStart pat pre (pat ++ rest)) :
    indexOf pat (pre ++ (pat ++ rest)) = some pre.length := by
  rw [indexOf_skip h, indexOf_append_self, Option.map_some, Nat.zero_add]

theorem indexOf_eq_none (hpat : pat ≠ []) {s : List α} (h : NoStart pat s []) :
    indexOf pat s = none := by
  have := indexOf_skip h
  rwa [List.append_nil, indexOf, if_neg hpat, Option.map_none] at this

theorem before_of_noStart (h : NoStart pat pre (pat ++ rest)) :
    before pat (pre ++ (pat ++ rest)) = pre := by
  rw [before, indexOf_of_noStart h]
  exact List.take_left

theorem before_of_not_found (hpat : pat ≠ []) {s : List α} (h : NoStart pat s []) :
    before pat s = s := by
  rw [before, indexOf_eq_none hpat h]

/-- A pattern that does not occur in a text does not start in it if the next letter ends it. -/
theorem noStart_of_indexOf_eq_none (h : indexOf pat pre = none) (hrest : ∀ c ∈ rest.head?, c ∉ pat) :
    NoStart pat pre rest := by
  induction pre with
  | nil => trivial
  | cons a pre ih =>
    rw [indexOf] at h
    split at h
    · cases h
    · rename_i hne
      refine ⟨fun hpre => hne ?_, ih (Option.map_eq_none_iff.mp h)⟩
      cases rest with
      | nil => rwa [List.append_nil] at hpre
      | cons c rest => exact prefix_of_prefix_append_cons (hrest c rfl) hpre

/-- What does not occur in a text does not occur in its end. -/
theorem indexOf_eq_none_of_append (h : indexOf pat (pre ++ rest) = none) : indexOf pat rest = none := by
  induction pre with
  | nil => exact h
  | cons a pre ih =>
    rw [List.cons_append, indexOf] at h
    split at h
    · cases h
    · exact ih (Option.map_eq_none_iff.mp h)

/-- The first occurrence in a text is the first one in every longer text. -/
theorem indexOf_append_of_eq_some {s : List α} {i : ℕ} (h : indexOf pat s = some i) (t : List α) :
    indexOf pat (s ++ t) = some i := by
  have hle := add_length_le_of_indexOf_eq_some h
  induction s generalizing i with
  | nil =>
    simp only [indexOf] at h
    split at h
    · cases h; subst pat; exact indexOf_append_self [] t
    · cases h
  | cons a s ih =>
    simp only [indexOf] at h
    rw [List.cons_append, indexOf]
    split at h
    · cases h
      exact if_pos (‹pat <+: a :: s›.trans (List.prefix_append (a :: s) t))
    · -- An occurrence at the front that reaches into `t` would be longer than the one found.
      rename_i hne
      obtain ⟨j, hj, rfl⟩ := Option.map_eq_some_iff.mp h
      rw [List.length_cons] at hle
      rw [if_neg, ih hj (by omega), Option.map_some]
      intro hpre
      refine hne (List.prefix_of_prefix_length_le hpre (List.prefix_append (a :: s) t) ?_)
      rw [List.length_cons]
      omega

theorem suffix_of_after_eq_some {pat s r : List α} (h : after pat s = some r) : r <:+ s := by
  obtain ⟨i, -, rfl⟩ := Option.map_eq_some_iff.mp h
  exact List.drop_suffix _ _

theorem after_eq_none_of_suffix {pat s r : List α} (hr : r <:+ s) (h : after pat s = none) :
    after pat r = none := by
  obtain ⟨pre, rfl⟩ := hr
  rw [after, indexOf_eq_none_of_append (Option.map_eq_none_iff.mp h), Option.map_none]

theorem after_of_noStart (h : NoStart pat pre (pat ++ rest)) :
    after pat (pre ++ (pat ++ rest)) = some rest := by
  rw [after, indexOf_of_noStart h, Option.map_some, ← List.append_assoc, ← List.length_append,
    List.drop_left]

/-- The search may skip a stretch. -/
theorem after_skip (h : NoStart pat pre rest) : after pat (pre ++ rest) = after pat rest := by
  rw [after, after, indexOf_skip h, Option.map_map]
  refine congrArg (fun f => (indexOf pat rest).map f) (funext fun i => ?_)
  rw [Function.comp_apply, Nat.add_right_comm, Nat.add_comm (i + pat.length), List.drop_append,
    List.drop_eq_nil_of_le (Nat.le_add_right _ _), List.nil_append, Nat.add_sub_cancel_left]

/-- What stands before the first occurrence, and that it is the first one. -/
theorem exists_of_after_eq_some {s r : List α} (h : after pat s = some r) :
    ∃ pre, s = pre ++ (pat ++ r) ∧ NoStart pat pre (pat ++ r) := by
  obtain ⟨i, hi, rfl⟩ := Option.map_eq_some_iff.mp h
  induction s generalizing i with
  | nil =>
    obtain ⟨hle, hpre⟩ := prefix_of_indexOf_eq_some hi
    obtain rfl : pat = [] := List.prefix_nil.mp (by rwa [List.drop_nil] at hpre)
    exact ⟨[], by simp, trivial⟩
  | cons a s ih =>
    rw [indexOf] at hi
    split at hi
    · rename_i hpre
      obtain ⟨r, hr⟩ := hpre
      cases hi
      exact ⟨[], by rw [Nat.zero_add, ← hr, List.drop_left, List.nil_append], trivial⟩
    · rename_i hne
      obtain ⟨j, hj, rfl⟩ := Option.map_eq_some_iff.mp hi
      obtain ⟨pre, hpre, hstart⟩ := ih j hj (by rw [after, hj, Option.map_some])
      have hdrop : (a :: s).drop (j + 1 + pat.length) = s.drop (j + pat.length) := by
        rw [Nat.add_right_comm, List.drop_succ_cons]
      rw [hdrop]
      exact ⟨a :: pre, by rw [List.cons_append, ← hpre], by rwa [← hpre], hstart⟩

theorem after_eq_none (hpat : pat ≠ []) {s : List α} (h : NoStart pat s []) :
    after pat s = none := by
  rw [after, indexOf_eq_none hpat h, Option.map_none]

end InferenceGateway.Common
