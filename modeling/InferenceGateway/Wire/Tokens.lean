import InferenceGateway.Common.JsonLayout
import InferenceGateway.Wire.Scan

/-! # The core's scanners on tokens

Whatever the layout of a JSON text and whatever its members are, each of the core's scanners reads what the
search for a key finds in the tokens of the text.
-/

namespace InferenceGateway.Wire

open Common InferenceGateway.Core

/-- The text up to the next quote, behind the first literal that ends as the key does and that a colon and
a quote follow. -/
def stringBehind (key : String) (ts : List Token) : List Char :=
  ((findKey key [':', '"'] ts).map (upTo '"')).getD []

/-- The characters among `chars`, behind the first literal that ends as the key does and that a colon
follows. -/
def numeralBehind (chars key : String) (ts : List Token) : List Char :=
  ((findKey key [':'] ts).map (List.takeWhile (· ∈ chars.toList))).getD []

/-- None of the characters may stand behind a value, or starts one that is not a number. -/
def StopsAtEnd (chars : String) : Prop :=
  (∀ c, endsValue c = true → c ∉ chars.toList) ∧ ∀ c ∈ ['n', 't', 'f', '"', '[', '{'], c ∉ chars.toList

theorem stopsAtEnd_int : StopsAtEnd "0123456789-" := by
  refine ⟨fun c hc => ?_, fun c hc => ?_⟩
  · have hmem := endsValue_cases hc
    simp only [List.mem_cons, List.not_mem_nil, or_false] at hmem
    rcases hmem with rfl | rfl | rfl | rfl | rfl | rfl | rfl <;> decide
  · simp only [List.mem_cons, List.not_mem_nil, or_false] at hc
    rcases hc with rfl | rfl | rfl | rfl | rfl | rfl <;> decide

theorem stopsAtEnd_float : StopsAtEnd "0123456789.-+eE" := by
  refine ⟨fun c hc => ?_, fun c hc => ?_⟩
  · have hmem := endsValue_cases hc
    simp only [List.mem_cons, List.not_mem_nil, or_false] at hmem
    rcases hmem with rfl | rfl | rfl | rfl | rfl | rfl | rfl <;> decide
  · simp only [List.mem_cons, List.not_mem_nil, or_false] at hc
    rcases hc with rfl | rfl | rfl | rfl | rfl | rfl <;> decide

/-- Behind a colon and a quote there is a literal. -/
theorem quote_mem_of_findKey {key : String} {ts : List Token} (hts : WellFormed ts) {rest : List Char}
    (h : findKey key [':', '"'] ts = some rest) : '"' ∈ rest := by
  induction ts with
  | nil => cases h
  | cons t ts ih =>
    cases t with
    | char c => exact ih hts.2 h
    | lit body =>
      rw [findKey] at h
      split at h
      · rename_i hfound
        obtain ⟨-, tail, htail⟩ := hfound
        obtain rfl : tail = rest := by rw [← htail, List.drop_left] at h; exact Option.some.inj h
        rcases ts with _ | ⟨body | c, us⟩
        · cases htail
        · rw [tokensText_lit, List.cons_append, List.cons.injEq] at htail
          cases htail.1
        · rw [tokensText_char, List.cons_append, List.cons.injEq] at htail
          obtain ⟨value, vs, -, rfl⟩ := exists_lit_of_text hts.2.2.2 htail.2.symm
          exact List.mem_append_right value List.mem_cons_self
      · exact ih hts.2.2 h

section

variable {key : String} (hkey : IsIdent key) {ts : List Token} (hts : WellFormed ts)
include hkey hts

/-- The scanner for strings on a text in which it finds what the search on the tokens finds. -/
theorem quotedAfter_of_after {cs : List Char}
    (h : after (literalPattern key [':', '"']) cs = findKey key [':', '"'] ts) :
    quotedAfter (stringKey (bytes key)) (utf8 cs) = utf8 (stringBehind key ts) := by
  rw [quotedAfter, stringKey_bytes, keyPattern_append,
    after_utf8_literalPattern hkey (by decide), h, stringBehind]
  cases hfind : findKey key [':', '"'] ts with
  | none => rfl
  | some rest =>
    have hquote : quote ∈ utf8 rest :=
      (asciiByte_mem_utf8 (by decide)).mpr (quote_mem_of_findKey hts hfind)
    simp only [Option.map_some, Option.getD_some]
    rw [if_pos hquote, quote, upTo_utf8 (by decide)]

theorem quotedAfter_tokensText :
    quotedAfter (stringKey (bytes key)) (utf8 (tokensText ts)) = utf8 (stringBehind key ts) :=
  quotedAfter_of_after hkey hts (after_tokensText hkey hts)

theorem numeralAfter_tokensText {chars : String} (hchars : Ascii chars.toList) :
    numeralAfter (bytes chars) (numberKey (bytes key)) (utf8 (tokensText ts)) =
      utf8 (numeralBehind chars key ts) := by
  rw [numeralAfter, numberKey_bytes, keyPattern_append,
    after_utf8_literalPattern hkey (by decide), after_tokensText hkey hts, numeralBehind]
  cases findKey key [':'] ts with
  | none => rfl
  | some rest => exact takeWhile_bytes hchars rest

end

end InferenceGateway.Wire
