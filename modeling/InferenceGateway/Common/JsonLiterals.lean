import InferenceGateway.Common.JsonLayout

/-!
# The string literals of a compact text

A compact text of a value has no whitespace between its tokens, but its strings may be escaped in any way:
`SpelledJson` is a value with its strings as they are spelled, and `SpelledJson.ofJson` spells them with the
usual escapes. The text has its string literals in a fixed order: each is a key, with the value of its
member behind it, or a value. What a scanner finds in the text depends on this list alone: `Spells` says
that a list of tokens spells a list of literals, and holds of the compact texts of every value and of the
texts behind their literals.
-/

namespace InferenceGateway.Common

/-! ## Spelled values -/

/-- A JSON value with its strings as they are spelled. -/
inductive SpelledJson
  | null
  | bool (b : Bool)
  | num (literal : Numeral)
  | str (literal : Literal)
  | arr (items : List SpelledJson)
  | obj (members : List (Literal × SpelledJson))

mutual

/-- The value that is spelled. -/
def SpelledJson.value : SpelledJson → Json
  | .null => .null
  | .bool b => .bool b
  | .num literal => .num literal
  | .str literal => .str literal.value
  | .arr items => .arr (itemValues items)
  | .obj members => .obj (memberValues members)

/-- The items that are spelled. -/
def itemValues : List SpelledJson → List Json
  | [] => []
  | x :: xs => x.value :: itemValues xs

/-- The members that are spelled. -/
def memberValues : List (Literal × SpelledJson) → List (String × Json)
  | [] => []
  | (key, x) :: ms => (key.value, x.value) :: memberValues ms

end

mutual

/-- The value with the usual escapes. -/
def SpelledJson.ofJson : Json → SpelledJson
  | .null => .null
  | .bool b => .bool b
  | .num literal => .num literal
  | .str s => .str (.ofString s)
  | .arr items => .arr (spelledItems items)
  | .obj members => .obj (spelledMembers members)

/-- Items with the usual escapes. -/
def spelledItems : List Json → List SpelledJson
  | [] => []
  | x :: xs => .ofJson x :: spelledItems xs

/-- Members with the usual escapes. -/
def spelledMembers : List (String × Json) → List (Literal × SpelledJson)
  | [] => []
  | (key, x) :: ms => (.ofString key, .ofJson x) :: spelledMembers ms

end

mutual

theorem value_ofJson : ∀ v : Json, (SpelledJson.ofJson v).value = v
  | .null | .bool _ | .num _ => by rw [SpelledJson.ofJson, SpelledJson.value]
  | .str s => by rw [SpelledJson.ofJson, SpelledJson.value, Literal.ofString]
  | .arr items => by rw [SpelledJson.ofJson, SpelledJson.value, itemValues_spelledItems items]
  | .obj members => by rw [SpelledJson.ofJson, SpelledJson.value, memberValues_spelledMembers members]

theorem itemValues_spelledItems : ∀ xs : List Json, itemValues (spelledItems xs) = xs
  | [] => by rw [spelledItems, itemValues]
  | x :: xs => by rw [spelledItems, itemValues, value_ofJson x, itemValues_spelledItems xs]

theorem memberValues_spelledMembers :
    ∀ ms : List (String × Json), memberValues (spelledMembers ms) = ms
  | [] => by rw [spelledMembers, memberValues]
  | (key, x) :: ms => by
    rw [spelledMembers, memberValues, value_ofJson x, memberValues_spelledMembers ms, Literal.ofString]

end

/-! ## Tokens of a compact text -/

mutual

/-- The tokens of the compact text of a value. -/
def SpelledJson.tokens : SpelledJson → List Token
  | .null => charTokens "null".toList
  | .bool true => charTokens "true".toList
  | .bool false => charTokens "false".toList
  | .num literal => charTokens literal.text
  | .str literal => [.lit literal.body]
  | .arr [] => charTokens "[]".toList
  | .arr (x :: xs) => .char '[' :: (x.tokens ++ (itemTokens xs ++ [.char ']']))
  | .obj [] => charTokens "{}".toList
  | .obj ((key, x) :: ms) =>
    .char '{' :: .lit key.body :: .char ':' :: (x.tokens ++ (memberTokens ms ++ [.char '}']))

/-- The tokens of the items behind the first one. -/
def itemTokens : List SpelledJson → List Token
  | [] => []
  | x :: xs => .char ',' :: (x.tokens ++ itemTokens xs)

/-- The tokens of the members behind the first one. -/
def memberTokens : List (Literal × SpelledJson) → List Token
  | [] => []
  | (key, x) :: ms => .char ',' :: .lit key.body :: .char ':' :: (x.tokens ++ memberTokens ms)

end

mutual

/-- With the usual escapes, the text is the one that a printer writes. -/
theorem tokensText_ofJson : ∀ v : Json, tokensText (SpelledJson.ofJson v).tokens = v.compact
  | .null | .bool true | .bool false | .num _ => by
    rw [SpelledJson.ofJson, SpelledJson.tokens, Json.compact, tokensText_charTokens]
  | .str s => by
    rw [SpelledJson.ofJson, SpelledJson.tokens, Json.compact]
    simp [quoted, Literal.ofString]
  | .arr [] => by
    rw [SpelledJson.ofJson, spelledItems, SpelledJson.tokens, Json.compact, tokensText_charTokens]
  | .arr (x :: xs) => by
    rw [SpelledJson.ofJson, spelledItems, SpelledJson.tokens, Json.compact]
    simp [tokensText_ofJson x, tokensText_spelledItems xs]
  | .obj [] => by
    rw [SpelledJson.ofJson, spelledMembers, SpelledJson.tokens, Json.compact, tokensText_charTokens]
  | .obj ((key, x) :: ms) => by
    rw [SpelledJson.ofJson, spelledMembers, SpelledJson.tokens, Json.compact]
    simp [quoted, Literal.ofString, tokensText_ofJson x, tokensText_spelledMembers ms]

theorem tokensText_spelledItems :
    ∀ xs : List Json, tokensText (itemTokens (spelledItems xs)) = compactItems xs
  | [] => by
    rw [spelledItems, itemTokens, compactItems]
    rfl
  | x :: xs => by
    rw [spelledItems, itemTokens, compactItems]
    simp [tokensText_ofJson x, tokensText_spelledItems xs]

theorem tokensText_spelledMembers :
    ∀ ms : List (String × Json), tokensText (memberTokens (spelledMembers ms)) = compactMembers ms
  | [] => by
    rw [spelledMembers, memberTokens, compactMembers]
    rfl
  | (key, x) :: ms => by
    rw [spelledMembers, memberTokens, compactMembers]
    simp [quoted, Literal.ofString, tokensText_ofJson x, tokensText_spelledMembers ms]

end

/-! ## Literals -/

/-- A string literal, and the value behind it if it is a key. -/
abbrev Occurrence := Literal × Option SpelledJson

mutual

/-- The string literals of a value in the order of its compact text. -/
def SpelledJson.literals : SpelledJson → List Occurrence
  | .str literal => [(literal, none)]
  | .arr items => itemLiterals items
  | .obj members => memberLiterals members
  | _ => []

/-- The string literals of items. -/
def itemLiterals : List SpelledJson → List Occurrence
  | [] => []
  | x :: xs => x.literals ++ itemLiterals xs

/-- The string literals of members. -/
def memberLiterals : List (Literal × SpelledJson) → List Occurrence
  | [] => []
  | (key, x) :: ms => (key, some x) :: (x.literals ++ memberLiterals ms)

end

/-- The tokens spell the literals, each key with its value directly behind it. -/
inductive Spells : List Occurrence → List Token → Prop
  | nil : Spells [] []
  | char {c ls ts} (hc : c ≠ '"') (h : Spells ls ts) : Spells ls (.char c :: ts)
  | text {s ls ts} (hend : EndsValue ts) (h : Spells ls ts) :
    Spells ((s, none) :: ls) (.lit s.body :: ts)
  | key {k x ls ts} (hend : EndsValue ts) (h : Spells ls (x.tokens ++ ts)) :
    Spells ((k, some x) :: ls) (.lit k.body :: .char ':' :: (x.tokens ++ ts))

theorem Spells.charTokens {cs : List Char} (hcs : '"' ∉ cs) {ls : List Occurrence} {ts : List Token}
    (h : Spells ls ts) : Spells ls (Common.charTokens cs ++ ts) := by
  induction cs with
  | nil => exact h
  | cons c cs ih =>
    rw [List.mem_cons, not_or] at hcs
    exact .char (fun heq => hcs.1 heq.symm) (ih hcs.2)

theorem endsValue_itemTokens (xs : List SpelledJson) {ts : List Token} (h : EndsValue ts) :
    EndsValue (itemTokens xs ++ ts) := by
  cases xs with
  | nil => rw [itemTokens]; exact h
  | cons x xs => rw [itemTokens]; exact endsValue_char (by decide) _

theorem endsValue_memberTokens (ms : List (Literal × SpelledJson)) {ts : List Token} (h : EndsValue ts) :
    EndsValue (memberTokens ms ++ ts) := by
  cases ms with
  | nil => rw [memberTokens]; exact h
  | cons m ms => rw [memberTokens]; exact endsValue_char (by decide) _

mutual

/-- The tokens of a value spell its literals. -/
theorem spells_tokens : ∀ (v : SpelledJson) {ls : List Occurrence} {ts : List Token}, Spells ls ts →
    EndsValue ts → Spells (v.literals ++ ls) (v.tokens ++ ts)
  | .null, _, _, h, _ => by
    rw [SpelledJson.tokens]
    exact h.charTokens (by decide)
  | .bool true, _, _, h, _ => by
    rw [SpelledJson.tokens]
    exact h.charTokens (by decide)
  | .bool false, _, _, h, _ => by
    rw [SpelledJson.tokens]
    exact h.charTokens (by decide)
  | .num literal, _, _, h, _ => by
    rw [SpelledJson.tokens]
    refine h.charTokens fun hmem => ?_
    cases List.all_eq_true.mp literal.chars _ hmem
  | .str literal, _, _, h, hend => by
    rw [SpelledJson.tokens, SpelledJson.literals]
    exact .text hend h
  | .arr [], _, _, h, _ => by
    rw [SpelledJson.tokens, SpelledJson.literals, itemLiterals]
    exact h.charTokens (by decide)
  | .arr (x :: xs), ls, ts, h, _ => by
    have hclose : EndsValue (.char ']' :: ts) := endsValue_char (by decide) ts
    have hxs := spells_itemTokens xs (h.char (by decide : ']' ≠ '"')) hclose
    have hx := spells_tokens x hxs (endsValue_itemTokens xs hclose)
    rw [SpelledJson.tokens, SpelledJson.literals, itemLiterals, List.append_assoc]
    simp only [List.cons_append, List.append_assoc, List.nil_append]
    exact hx.char (by decide)
  | .obj [], _, _, h, _ => by
    rw [SpelledJson.tokens, SpelledJson.literals, memberLiterals]
    exact h.charTokens (by decide)
  | .obj ((key, x) :: ms), ls, ts, h, _ => by
    have hclose : EndsValue (.char '}' :: ts) := endsValue_char (by decide) ts
    have hms := spells_memberTokens ms (h.char (by decide : '}' ≠ '"')) hclose
    have hx := spells_tokens x hms (endsValue_memberTokens ms hclose)
    rw [SpelledJson.tokens, SpelledJson.literals, memberLiterals]
    simp only [List.cons_append, List.append_assoc, List.nil_append]
    exact (Spells.key (endsValue_memberTokens ms hclose) hx).char (by decide)

theorem spells_itemTokens : ∀ (xs : List SpelledJson) {ls : List Occurrence} {ts : List Token}, Spells ls ts →
    EndsValue ts → Spells (itemLiterals xs ++ ls) (itemTokens xs ++ ts)
  | [], _, _, h, _ => by rw [itemTokens, itemLiterals]; exact h
  | x :: xs, _, _, h, hend => by
    have hx := spells_tokens x (spells_itemTokens xs h hend) (endsValue_itemTokens xs hend)
    rw [itemTokens, itemLiterals, List.append_assoc]
    simp only [List.cons_append, List.append_assoc]
    exact hx.char (by decide)

theorem spells_memberTokens : ∀ (ms : List (Literal × SpelledJson)) {ls : List Occurrence} {ts : List Token},
    Spells ls ts → EndsValue ts → Spells (memberLiterals ms ++ ls) (memberTokens ms ++ ts)
  | [], _, _, h, _ => by rw [memberTokens, memberLiterals]; exact h
  | (key, x) :: ms, _, _, h, hend => by
    have hx := spells_tokens x (spells_memberTokens ms h hend) (endsValue_memberTokens ms hend)
    rw [memberTokens, memberLiterals]
    simp only [List.cons_append, List.append_assoc]
    exact (Spells.key (endsValue_memberTokens ms hend) hx).char (by decide)

end

theorem Spells.wellFormed {ls : List Occurrence} {ts : List Token} (h : Spells ls ts) : WellFormed ts := by
  induction h with
  | nil => trivial
  | char hc _ ih => exact ⟨hc, ih⟩
  | text hend _ ih => exact ⟨(Literal.readsTo _).1, hend.not_joinsLiteral, ih⟩
  | key hend _ ih =>
    refine ⟨(Literal.readsTo _).1, fun c hc => ?_, by decide, ih⟩
    cases hc
    rfl

/-! ## Searching the literals -/

/-- The literal is the key, or ends in a quote and the key. -/
def Occurrence.EndsAs (o : Occurrence) (key : String) : Prop := Common.EndsAs key o.1.body

instance (o : Occurrence) (key : String) : Decidable (o.EndsAs key) :=
  inferInstanceAs (Decidable (Common.EndsAs _ _))

/-- What is read from the value of a key, if the key is the one that is searched for. -/
def Occurrence.read {β : Type} (key : String) (val : SpelledJson → Option β) (o : Occurrence) : Option β :=
  if o.EndsAs key then o.2.bind val else none

/-- Reading a value from the text behind its key: nothing if the text does not start as it has to. -/
def ReadsValue {β : Type} (suffix : List Char) (read : List Char → β) (val : SpelledJson → Option β) :
    Prop :=
  ∀ x ts, EndsValue ts →
    val x = if suffix <+: tokensText (x.tokens ++ ts) then
      some (read ((tokensText (x.tokens ++ ts)).drop suffix.length)) else none

/-- The search for a key and a colon in the text reads the first literal from which something is read. -/
theorem Spells.findKey {β : Type} {key : String} {suffix : List Char} {read : List Char → β}
    {val : SpelledJson → Option β} (hval : ReadsValue suffix read val) {ls : List Occurrence} {ts : List Token}
    (h : Spells ls ts) :
    (Common.findKey key (':' :: suffix) ts).map read = ls.findSome? (Occurrence.read key val) := by
  induction h with
  | nil => rfl
  | char _ _ ih => exact ih
  | @text s ls ts hend _ ih =>
    have hskip : Common.findKey key (':' :: suffix) (.lit s.body :: ts) =
        Common.findKey key (':' :: suffix) ts := skips_lit _ ts hend
    have hread : Occurrence.read key val (s, none) = none := by
      rw [Occurrence.read]
      exact ite_self none
    rw [hskip, ih, List.findSome?_cons, hread]
  | @key k x ls ts hend _ ih =>
    have hcolon : ':' :: suffix <+: ':' :: tokensText (x.tokens ++ ts) ↔
        suffix <+: tokensText (x.tokens ++ ts) := by
      rw [List.cons_prefix_cons, eq_self_iff_true, true_and]
    rw [Common.findKey, tokensText_char, List.findSome?_cons, Occurrence.read, Option.bind_some,
      hval x ts hend]
    by_cases hends : Occurrence.EndsAs (k, some x) key
    · by_cases hsuffix : suffix <+: tokensText (x.tokens ++ ts)
      · rw [if_pos ⟨hends, hcolon.mpr hsuffix⟩, if_pos hends, if_pos hsuffix]
        rfl
      · rw [if_neg fun h => hsuffix (hcolon.mp h.2), if_pos hends, if_neg hsuffix]
        exact ih
    · rw [if_neg fun h => hends h.1, if_neg hends]
      exact ih

/-- The literals behind the first one that ends as the key does. -/
def behind (key : String) : List Occurrence → List Occurrence
  | [] => []
  | o :: ls => if o.EndsAs key then ls else behind key ls

/-- The search for a quoted word leads to the tokens that spell the literals behind it. -/
def LeadsBehind (key : String) (ls : List Occurrence) (ts : List Token) : Prop :=
  (∃ us, Spells (behind key ls) us ∧ findKey key [] ts = some (tokensText us)) ∨
    behind key ls = [] ∧ findKey key [] ts = none

private theorem leadsBehind_lit {key : String} {o : Occurrence} {ls : List Occurrence} {ts : List Token}
    (h : Spells ls ts) (ih : LeadsBehind key ls ts) :
    LeadsBehind key (o :: ls) (.lit o.1.body :: ts) := by
  unfold LeadsBehind
  rw [behind, findKey]
  by_cases hends : o.EndsAs key
  · rw [if_pos hends, if_pos ⟨hends, List.nil_prefix⟩]
    exact .inl ⟨ts, h, rfl⟩
  · rw [if_neg hends, if_neg fun h => hends h.1]
    exact ih

theorem Spells.leadsBehind (key : String) {ls : List Occurrence} {ts : List Token} (h : Spells ls ts) :
    LeadsBehind key ls ts := by
  induction h with
  | nil => exact .inr ⟨rfl, rfl⟩
  | char _ _ ih => exact ih
  | text _ h ih => exact leadsBehind_lit h ih
  | key _ h ih => exact leadsBehind_lit (h.char (by decide)) ih

/-- The next quote is the opening one of the next literal. -/
theorem Spells.next {o : Occurrence} {ls : List Occurrence} {ts : List Token} (h : Spells (o :: ls) ts) :
    ∃ pre us, '"' ∉ pre ∧ tokensText ts = pre ++ tokensText (.lit o.1.body :: us) ∧
      Spells (o :: ls) (.lit o.1.body :: us) ∧ Spells ls us := by
  generalize hos : o :: ls = os at h
  induction h with
  | nil => cases hos
  | @char c os ts hc _ ih =>
    obtain ⟨pre, us, hpre, htext, hus, hls⟩ := ih hos
    refine ⟨c :: pre, us, ?_, by rw [tokensText_char, htext, List.cons_append], hus, hls⟩
    rw [List.mem_cons, not_or]
    exact ⟨fun heq => hc heq.symm, hpre⟩
  | @text s os ts hend h _ =>
    obtain ⟨rfl, rfl⟩ := List.cons.inj hos
    exact ⟨[], ts, List.not_mem_nil, rfl, .text hend h, h⟩
  | @key k x os ts hend h _ =>
    obtain ⟨rfl, rfl⟩ := List.cons.inj hos
    exact ⟨[], _, List.not_mem_nil, rfl, .key hend h, h.char (by decide)⟩

/-- Behind the last literal there is no quote. -/
theorem Spells.quote_not_mem {ts : List Token} (h : Spells [] ts) : '"' ∉ tokensText ts := by
  generalize hos : ([] : List Occurrence) = os at h
  induction h with
  | nil => exact List.not_mem_nil
  | char hc _ ih =>
    rw [tokensText_char, List.mem_cons, not_or]
    exact ⟨fun heq => hc heq.symm, ih hos⟩
  | text => cases hos
  | key => cases hos

end InferenceGateway.Common
