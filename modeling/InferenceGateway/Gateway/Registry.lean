import Mathlib

/-! # The model registry

Reference: `models.rs`.
-/

namespace InferenceGateway.Gateway

/-- Public view of a registered model. -/
structure ModelInfo where
  name : String
  status : String
  device : String
  backend : String
deriving DecidableEq, Repr

/-- `str::to_ascii_lowercase`. -/
def toAsciiLowercase (s : String) : String := String.ofList (s.toList.map Char.toLower)

/-! ## Names up to ASCII case -/

/-- The same character, or the same ASCII letter in another case. -/
def SameLetter (c d : Char) : Prop :=
  c = d ∨ (c.isUpper = true ∧ d.toNat = c.toNat + 32) ∨ (d.isUpper = true ∧ c.toNat = d.toNat + 32)

/-- The same name up to ASCII case. -/
def EqIgnoreAsciiCase (s t : String) : Prop := List.Forall₂ SameLetter s.toList t.toList

private theorem isUpper_iff (c : Char) : c.isUpper = true ↔ 65 ≤ c.toNat ∧ c.toNat ≤ 90 := by
  unfold Char.isUpper
  rw [decide_eq_true_iff]
  rfl

private theorem toNat_toLower (c : Char) :
    c.toLower.toNat = if c.isUpper then c.toNat + 32 else c.toNat := by
  unfold Char.toLower Char.isUpper
  by_cases h : c.val ≥ 'A'.val ∧ c.val ≤ 'Z'.val
  · rw [dif_pos h]
    simp only [h, and_self, decide_true, if_true]
    have hle : c.val.toNat ≤ 90 := h.2
    have hoffset : ('a'.val - 'A'.val).toNat = 32 := rfl
    show (c.val + ('a'.val - 'A'.val)).toNat = c.val.toNat + 32
    rw [UInt32.toNat_add, hoffset]
    omega
  · rw [dif_neg h]
    simp only [h, decide_false, Bool.false_eq_true, if_false]

theorem toLower_eq_iff (c d : Char) : c.toLower = d.toLower ↔ SameLetter c d := by
  rw [SameLetter, ← Char.toNat_inj, ← Char.toNat_inj, toNat_toLower, toNat_toLower]
  simp only [isUpper_iff]
  split_ifs <;> omega

theorem toAsciiLowercase_eq_iff {s t : String} :
    toAsciiLowercase s = toAsciiLowercase t ↔ EqIgnoreAsciiCase s t := by
  unfold toAsciiLowercase EqIgnoreAsciiCase
  rw [String.ofList_inj, ← List.forall₂_eq_eq_eq, List.forall₂_map_left_iff, List.forall₂_map_right_iff]
  simp only [toLower_eq_iff]

/-! ## The registry -/

/-- `RegistryInner`, the contents behind the lock. `known_names` is a hash set of which only
membership is ever asked, so a list of its elements stands for it. -/
structure ModelRegistry where
  models : List ModelInfo
  knownNames : List String
deriving DecidableEq, Repr

namespace ModelRegistry

/-- `list`. -/
def list (r : ModelRegistry) : List ModelInfo := r.models

/-- `contains`: case-insensitive membership check used for request validation. -/
def contains (r : ModelRegistry) (name : String) : Bool :=
  r.knownNames.contains (toAsciiLowercase name)

/-- `replace_all`, whose two assignments run under the write lock. -/
def replaceAll (models : List ModelInfo) (aliases : List String) : ModelRegistry where
  models := models
  knownNames := models.map (fun model => toAsciiLowercase model.name)
    ++ aliases.map toAsciiLowercase

/-- The static snapshot of `ModelRegistry::default`. -/
def default : ModelRegistry :=
  let models : List ModelInfo :=
    [{ name := "qwen2.5-0.5b-instruct", status := "loaded", device := "gpu0",
       backend := "llama.cpp-cuda" },
     { name := "llama-7b", status := "available", device := "gpu0", backend := "cuda" },
     { name := "llama-13b", status := "available", device := "gpu0", backend := "cuda" },
     { name := "mistral-7b", status := "available", device := "gpu0", backend := "cuda" }]
  { models, knownNames := models.map fun model => toAsciiLowercase model.name }

theorem contains_default {name : String} :
    default.contains name = true ↔ ∃ model ∈ default.models, EqIgnoreAsciiCase name model.name := by
  have hnames : default.knownNames = default.models.map fun model => toAsciiLowercase model.name := rfl
  rw [contains, hnames, List.contains_iff_mem, List.mem_map]
  simp only [← toAsciiLowercase_eq_iff, eq_comm]

theorem contains_replaceAll {models : List ModelInfo} {aliases : List String} {name : String} :
    (replaceAll models aliases).contains name = true ↔
      (∃ model ∈ models, EqIgnoreAsciiCase name model.name) ∨
        ∃ other ∈ aliases, EqIgnoreAsciiCase name other := by
  rw [contains, replaceAll, List.contains_iff_mem, List.mem_append, List.mem_map, List.mem_map]
  simp only [← toAsciiLowercase_eq_iff, eq_comm]

example : default.contains "LLaMA-7B" = true ∧ default.contains "gpt-4" = false := by decide

end ModelRegistry

end InferenceGateway.Gateway
