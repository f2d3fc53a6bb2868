import InferenceGateway.Common.Search

/-!
# UTF-8

The encoding of a text, its decoding, and bytewise processing of encoded text. The bytes of a character
outside of ASCII are all at least 128, so a function that treats ASCII bytes one by one and leaves the
others alone acts on the encoding as it acts on the characters.
-/

namespace InferenceGateway.Common

/-- The UTF-8 encoding of a text. -/
def utf8 (cs : List Char) : List UInt8 := cs.flatMap String.utf8EncodeChar

/-- The bytes of a string. -/
def bytes (s : String) : List UInt8 := utf8 s.toList

/-- The byte of an ASCII character. -/
def asciiByte (c : Char) : UInt8 := UInt8.ofNat c.toNat

@[simp] theorem utf8_nil : utf8 [] = [] := rfl

theorem utf8_cons (c : Char) (cs : List Char) : utf8 (c :: cs) = String.utf8EncodeChar c ++ utf8 cs := rfl

theorem utf8_append (cs ds : List Char) : utf8 (cs ++ ds) = utf8 cs ++ utf8 ds := List.flatMap_append

theorem utf8EncodeChar_of_lt {c : Char} (h : c.toNat < 128) :
    String.utf8EncodeChar c = [asciiByte c] := by
  rw [String.utf8EncodeChar, if_pos (by exact Nat.le_of_lt_succ h)]
  rfl

theorem utf8_cons_of_lt {c : Char} (h : c.toNat < 128) (cs : List Char) :
    utf8 (c :: cs) = asciiByte c :: utf8 cs := by
  rw [utf8_cons, utf8EncodeChar_of_lt h, List.singleton_append]

/-- A character outside of ASCII has no byte below 128. -/
theorem le_of_mem_utf8EncodeChar {c : Char} (h : 128 ≤ c.toNat) {b : UInt8}
    (hb : b ∈ String.utf8EncodeChar c) : 128 ≤ b.toNat := by
  have hc : c.val.toNat = c.toNat := rfl
  simp only [String.utf8EncodeChar, hc] at hb
  split_ifs at hb
  · omega
  all_goals
    simp only [List.mem_cons, List.not_mem_nil, or_false] at hb
    rcases hb with rfl | rfl | rfl | rfl <;> simp only [UInt8.toNat_ofNat'] <;> omega

theorem toNat_asciiByte {c : Char} (h : c.toNat < 128) : (asciiByte c).toNat = c.toNat := by
  rw [asciiByte, UInt8.toNat_ofNat', Nat.mod_eq_of_lt (by omega)]

/-- ASCII characters are told apart by their bytes. -/
theorem asciiByte_inj {c d : Char} (hc : c.toNat < 128) (hd : d.toNat < 128) :
    asciiByte c = asciiByte d ↔ c = d := by
  refine ⟨fun h => ?_, fun h => h ▸ rfl⟩
  have := congrArg UInt8.toNat h
  rw [toNat_asciiByte hc, toNat_asciiByte hd] at this
  exact Char.toNat_inj.mp this

/-- What holds of the characters of the first codes is shown by going through the codes. -/
theorem forall_of_toNat_lt (P : Char → Prop) {bound : ℕ} (h : ∀ n < bound, P (Char.ofNat n)) {c : Char}
    (hc : c.toNat < bound) : P c := by
  rw [← Char.ofNat_toNat c]
  exact h c.toNat hc

/-! ## Bytewise processing -/

/-- Bytewise rewriting of ASCII is characterwise rewriting of the text. -/
theorem flatMap_utf8 {f : UInt8 → List UInt8} {g : Char → List Char}
    (hlow : ∀ c : Char, c.toNat < 128 → f (asciiByte c) = utf8 (g c))
    (hhigh : ∀ b : UInt8, 128 ≤ b.toNat → f b = [b])
    (hkeep : ∀ c : Char, 128 ≤ c.toNat → g c = [c]) (cs : List Char) :
    (utf8 cs).flatMap f = utf8 (cs.flatMap g) := by
  induction cs with
  | nil => rfl
  | cons c cs ih =>
    rw [utf8_cons, List.flatMap_append, ih, List.flatMap_cons, utf8_append]
    congr 1
    rcases Nat.lt_or_ge c.toNat 128 with hc | hc
    · rw [utf8EncodeChar_of_lt hc, List.flatMap_singleton, hlow c hc]
    · have hid : ∀ b ∈ String.utf8EncodeChar c, f b = [b] :=
        fun b hb => hhigh b (le_of_mem_utf8EncodeChar hc hb)
      rw [hkeep c hc, List.flatMap_congr hid, List.flatMap_singleton', utf8_cons, utf8_nil,
        List.append_nil]

/-- The bytes before the first ASCII character `q` encode the characters before it. -/
theorem upTo_utf8 {q : Char} (hq : q.toNat < 128) (cs : List Char) :
    upTo (asciiByte q) (utf8 cs) = utf8 (upTo q cs) := by
  induction cs with
  | nil => rfl
  | cons c cs ih =>
    rcases Nat.lt_or_ge c.toNat 128 with hc | hc
    · rw [utf8_cons_of_lt hc, upTo, upTo]
      by_cases h : c = q
      · rw [List.takeWhile_cons_of_neg (by simp [h]), List.takeWhile_cons_of_neg (by simp [h])]
        rfl
      · have hb : asciiByte c ≠ asciiByte q := fun hb => h ((asciiByte_inj hc hq).mp hb)
        rw [List.takeWhile_cons_of_pos (by simp [hb]), List.takeWhile_cons_of_pos (by simp [h]),
          utf8_cons_of_lt hc]
        exact congrArg _ ih
    · have hcq : c ≠ q := fun h => by rw [h] at hc; omega
      have hall : ∀ b ∈ String.utf8EncodeChar c, decide (b ≠ asciiByte q) = true := by
        intro b hb
        have hle := le_of_mem_utf8EncodeChar hc hb
        have hne : b ≠ asciiByte q := fun h => by rw [h, toNat_asciiByte hq] at hle; omega
        exact decide_eq_true hne
      rw [utf8_cons, upTo, upTo, List.takeWhile_append_of_pos hall,
        List.takeWhile_cons_of_pos (by simp [hcq]), utf8_cons]
      exact congrArg _ ih

/-- The longest stretch of bytes from a set of ASCII characters encodes the longest stretch of these
characters. -/
theorem takeWhile_utf8 {p : UInt8 → Bool} {q : Char → Bool}
    (hlow : ∀ c : Char, c.toNat < 128 → p (asciiByte c) = q c)
    (hhigh : ∀ b : UInt8, 128 ≤ b.toNat → p b = false)
    (hout : ∀ c : Char, 128 ≤ c.toNat → q c = false) (cs : List Char) :
    (utf8 cs).takeWhile p = utf8 (cs.takeWhile q) := by
  induction cs with
  | nil => rfl
  | cons c cs ih =>
    rcases Nat.lt_or_ge c.toNat 128 with hc | hc
    · rw [utf8_cons_of_lt hc, List.takeWhile_cons, List.takeWhile_cons, hlow c hc, ih]
      split
      · rw [utf8_cons_of_lt hc]
      · rfl
    · rw [List.takeWhile_cons, hout c hc, utf8_cons]
      cases hs : String.utf8EncodeChar c with
      | nil => exact absurd hs String.utf8EncodeChar_ne_nil
      | cons b bs =>
        have hb := le_of_mem_utf8EncodeChar hc (hs ▸ List.mem_cons_self : b ∈ String.utf8EncodeChar c)
        rw [List.cons_append, List.takeWhile_cons_of_neg (by rw [hhigh b hb]; decide)]
        rfl

/-! ## Searching for ASCII patterns -/

/-- An ASCII text. -/
def Ascii (cs : List Char) : Prop := ∀ c ∈ cs, c.toNat < 128

instance (cs : List Char) : Decidable (Ascii cs) := List.decidableBAll _ cs

/-- An ASCII prefix of the encoding is a prefix of the text. -/
theorem prefix_of_utf8 {pat cs : List Char} (hpat : Ascii pat) (h : utf8 pat <+: utf8 cs) :
    pat <+: cs := by
  induction pat generalizing cs with
  | nil => exact List.nil_prefix
  | cons p pat ih =>
    obtain ⟨hp, hpat⟩ := List.forall_mem_cons.mp hpat
    rw [utf8_cons_of_lt hp] at h
    cases cs with
    | nil => exact absurd (List.prefix_nil.mp h) (List.cons_ne_nil _ _)
    | cons c cs =>
      rcases Nat.lt_or_ge c.toNat 128 with hc | hc
      · rw [utf8_cons_of_lt hc, List.cons_prefix_cons, asciiByte_inj hp hc] at h
        exact List.cons_prefix_cons.mpr ⟨h.1, ih hpat h.2⟩
      · rw [utf8_cons] at h
        cases hs : String.utf8EncodeChar c with
        | nil => exact absurd hs String.utf8EncodeChar_ne_nil
        | cons b bs =>
          rw [hs, List.cons_append, List.cons_prefix_cons] at h
          have hb := le_of_mem_utf8EncodeChar hc (hs ▸ List.mem_cons_self)
          rw [← h.1, toNat_asciiByte hp] at hb
          omega

/-- Where an ASCII pattern does not start in a text, it does not start in its encoding. -/
theorem NoStart.utf8 {p : Char} {pat pre rest : List Char} (hpat : Ascii (p :: pat))
    (h : NoStart (p :: pat) pre rest) :
    NoStart (Common.utf8 (p :: pat)) (Common.utf8 pre) (Common.utf8 rest) := by
  induction pre with
  | nil => trivial
  | cons c pre ih =>
    rw [utf8_cons c, noStart_append]
    refine ⟨?_, ih h.2⟩
    rcases Nat.lt_or_ge c.toNat 128 with hc | hc
    · rw [utf8EncodeChar_of_lt hc]
      refine ⟨fun hpre => h.1 (prefix_of_utf8 hpat ?_), trivial⟩
      rwa [utf8_cons_of_lt hc, utf8_append]
    · have hp := hpat p List.mem_cons_self
      rw [utf8_cons_of_lt hp]
      refine noStart_of_head_not_mem fun hmem => ?_
      have := le_of_mem_utf8EncodeChar hc hmem
      rw [toNat_asciiByte hp] at this
      omega

/-- The first occurrence of an ASCII pattern in an encoded text. -/
theorem after_utf8 {p : Char} {pat pre rest : List Char} (hpat : Ascii (p :: pat))
    (h : NoStart (p :: pat) pre (p :: pat ++ rest)) :
    after (utf8 (p :: pat)) (utf8 (pre ++ (p :: pat ++ rest))) = some (utf8 rest) := by
  have h := h.utf8 hpat
  rw [utf8_append] at h
  rw [utf8_append, utf8_append]
  exact after_of_noStart h

/-- An ASCII pattern that does not occur. -/
theorem after_utf8_eq_none {p : Char} {pat cs : List Char} (hpat : Ascii (p :: pat))
    (h : NoStart (p :: pat) cs []) : after (utf8 (p :: pat)) (utf8 cs) = none := by
  refine after_eq_none ?_ (h.utf8 hpat)
  rw [utf8_cons_of_lt (hpat p List.mem_cons_self)]
  exact List.cons_ne_nil _ _

/-- Searching for an ASCII pattern in an encoding is searching for it in the text. -/
theorem after_utf8_map {p : Char} {pat : List Char} (hpat : Ascii (p :: pat)) (cs : List Char) :
    after (utf8 (p :: pat)) (utf8 cs) = (after (p :: pat) cs).map utf8 := by
  cases hafter : after (p :: pat) cs with
  | none =>
    have hnone := Option.map_eq_none_iff.mp hafter
    exact after_utf8_eq_none hpat (noStart_of_indexOf_eq_none hnone nofun)
  | some rest =>
    obtain ⟨pre, rfl, hpre⟩ := exists_of_after_eq_some hafter
    exact after_utf8 hpat hpre

/-- An ASCII byte occurs in the encoding where its character does. -/
theorem asciiByte_mem_utf8 {q : Char} (hq : q.toNat < 128) {cs : List Char} :
    asciiByte q ∈ utf8 cs ↔ q ∈ cs := by
  rw [utf8, List.mem_flatMap]
  constructor
  · rintro ⟨c, hc, hb⟩
    rcases Nat.lt_or_ge c.toNat 128 with hlt | hle
    · rw [utf8EncodeChar_of_lt hlt, List.mem_singleton, asciiByte_inj hq hlt] at hb
      exact hb ▸ hc
    · have := le_of_mem_utf8EncodeChar hle hb
      rw [toNat_asciiByte hq] at this
      omega
  · intro h
    exact ⟨q, h, by rw [utf8EncodeChar_of_lt hq]; exact List.mem_singleton_self _⟩

/-! ## Decoding -/

/-- Decode at most `fuel` characters; `none` if the bytes are not UTF-8 or are not used up. -/
def decodeChars : ℕ → List UInt8 → Option (List Char)
  | _, [] => some []
  | 0, _ => none
  | fuel + 1, bs =>
    (bs.toByteArray.utf8DecodeChar? 0).bind fun c =>
      (decodeChars fuel (bs.drop c.utf8Size)).map (c :: ·)

/-- Decode UTF-8. -/
def fromUtf8 (bs : List UInt8) : Option (List Char) := decodeChars bs.length bs

theorem decodeChars_utf8 (cs : List Char) {fuel : ℕ} (h : cs.length ≤ fuel) :
    decodeChars fuel (utf8 cs) = some cs := by
  induction cs generalizing fuel with
  | nil => cases fuel <;> rfl
  | cons c cs ih =>
    obtain ⟨fuel, rfl⟩ := Nat.exists_eq_succ_of_ne_zero (Nat.ne_of_gt (Nat.lt_of_lt_of_le (Nat.succ_pos _) h))
    have hdec : (utf8 (c :: cs)).toByteArray.utf8DecodeChar? 0 = some c := by
      rw [utf8_cons, List.toByteArray_append]
      exact ByteArray.utf8DecodeChar?_utf8EncodeChar_append
    have hne : utf8 (c :: cs) ≠ [] := by
      rw [utf8_cons]
      exact List.append_ne_nil_of_left_ne_nil String.utf8EncodeChar_ne_nil _
    have hdrop : (utf8 (c :: cs)).drop c.utf8Size = utf8 cs := by
      rw [utf8_cons, ← String.length_utf8EncodeChar, List.drop_left]
    cases hs : utf8 (c :: cs) with
    | nil => exact absurd hs hne
    | cons b bs =>
      rw [decodeChars, ← hs, hdec, Option.bind_some, hdrop, ih (Nat.le_of_succ_le_succ h), Option.map_some]
      exact fun h => hne (hs.trans h)

theorem length_le_length_utf8 (cs : List Char) : cs.length ≤ (utf8 cs).length := by
  induction cs with
  | nil => exact le_rfl
  | cons c cs ih =>
    have := c.utf8Size_pos
    rw [utf8_cons, List.length_append, String.length_utf8EncodeChar, List.length_cons]
    omega

/-- Decoding is inverse to encoding. -/
@[simp] theorem fromUtf8_utf8 (cs : List Char) : fromUtf8 (utf8 cs) = some cs :=
  decodeChars_utf8 cs (length_le_length_utf8 cs)

theorem utf8_injective : Function.Injective utf8 := fun cs ds h => by
  have := congrArg fromUtf8 h
  rwa [fromUtf8_utf8, fromUtf8_utf8, Option.some.injEq] at this

theorem utf8_eq_nil_iff {cs : List Char} : utf8 cs = [] ↔ cs = [] := by
  rw [← utf8_nil]
  exact utf8_injective.eq_iff

/-! ## Byte arrays -/

private theorem toList_loop (bs : ByteArray) (i : ℕ) (r : List UInt8) :
    ByteArray.toList.loop bs i r = r.reverse ++ bs.data.toList.drop i := by
  induction i, r using ByteArray.toList.loop.induct bs with
  | case1 i r hlt ih =>
    have hlen : i < bs.data.toList.length := hlt
    have hget : bs.get! i = bs.data.toList[i] := getElem!_pos bs.data i hlt
    rw [ByteArray.toList.loop, if_pos hlt, ih, List.drop_eq_getElem_cons hlen, hget, List.reverse_cons,
      List.append_assoc, List.singleton_append]
  | case2 i r hge =>
    have hlen : bs.data.toList.length ≤ i := Nat.not_lt.mp hge
    rw [ByteArray.toList.loop, if_neg hge, List.drop_eq_nil_of_le hlen, List.append_nil]

/-- `toUTF8` holds the bytes of a string. -/
theorem toUTF8_toList (s : String) : s.toUTF8.toList = bytes s := by
  show ByteArray.toList.loop s.toByteArray 0 [] = bytes s
  rw [toList_loop, ← String.utf8Encode_toList]
  show (List.toByteArray _).data.toList = _
  rw [List.data_toByteArray]
  rfl

end InferenceGateway.Common
