import InferenceGateway.Common.Json

/-!
# The text exposition format

A registry of metrics is exposed as lines of text: comments that describe a metric, samples of a metric under
its labels, and blank lines. Texts that may hold any character are escaped, so that a line feed ends a line and
a quote ends a label value. Sample values are natural numbers here, and samples bear no time.

A reader finds in the text the lines that were written.
-/

namespace InferenceGateway.Common.Exposition

/-- A label and its value. -/
abbrev Label := List Char × List Char

/-- A line. -/
inductive Entry
  | help (name doc : List Char)
  | type (name kind : List Char)
  | sample (name : List Char) (labels : List Label) (value : ℕ)
  | blank
deriving DecidableEq

/-! ## Names -/

/-- A character of a name. The colon is left to those who derive metrics from others. -/
def isNameChar (c : Char) : Bool := c.isAlphanum || c == '_'

/-- A name does not start with a digit. -/
def isName : List Char → Bool
  | [] => false
  | c :: cs => !c.isDigit && (c :: cs).all isNameChar

/-- The name in front, and what follows. -/
def cutName (cs : List Char) : Option (List Char × List Char) :=
  let name := cs.takeWhile isNameChar
  if isName name then some (name, cs.dropWhile isNameChar) else none

theorem all_of_isName {name : List Char} (h : isName name = true) : ∀ c ∈ name, isNameChar c = true := by
  cases name with
  | nil => cases h
  | cons c cs => exact List.all_eq_true.mp (Bool.and_eq_true_iff.mp h).2

theorem cutName_append {name : List Char} (h : isName name = true) {c : Char} (hc : isNameChar c = false)
    (rest : List Char) : cutName (name ++ c :: rest) = some (name, c :: rest) := by
  have hall := all_of_isName h
  have htake : (name ++ c :: rest).takeWhile isNameChar = name := by
    rw [List.takeWhile_append_of_pos hall, List.takeWhile_cons_of_neg (by simp [hc]), List.append_nil]
  have hdrop : (name ++ c :: rest).dropWhile isNameChar = c :: rest := by
    rw [List.dropWhile_append_of_pos hall, List.dropWhile_cons_of_neg (by simp [hc])]
  rw [cutName, htake, hdrop, if_pos h]

/-! ## Escaping -/

/-- A character that stands for itself in a comment. -/
def isPlain (c : Char) : Bool := c != '\\' && c != '\n'

/-- A character in a comment. -/
def escapeChar (c : Char) : List Char :=
  if c = '\n' then ['\\', 'n'] else if c = '\\' then ['\\', '\\'] else [c]

/-- A comment. -/
def escapeDoc (cs : List Char) : List Char := cs.flatMap escapeChar

/-- A label value. -/
def escapeValue (cs : List Char) : List Char := cs.flatMap fun c => if c = '"' then ['\\', '"'] else escapeChar c

/-- What the character after a backslash stands for. -/
def unescapeChar (c : Char) : Char := if c = 'n' then '\n' else c

/-- The comment that was escaped. -/
def readDoc : List Char → Option (List Char)
  | [] => some []
  | '\\' :: [] => none
  | '\\' :: c :: rest => (readDoc rest).map (unescapeChar c :: ·)
  | c :: rest => (readDoc rest).map (c :: ·)

/-- The label value up to the quote that closes it, and what follows. -/
def readQuoted : List Char → Option (List Char × List Char)
  | [] => none
  | '\\' :: [] => none
  | '\\' :: c :: rest => (readQuoted rest).map fun p => (unescapeChar c :: p.1, p.2)
  | c :: rest => if c = '"' then some ([], rest) else (readQuoted rest).map fun p => (c :: p.1, p.2)

theorem readDoc_escapeDoc (cs : List Char) : readDoc (escapeDoc cs) = some cs := by
  induction cs with
  | nil => rfl
  | cons c cs ih =>
    rw [escapeDoc, List.flatMap_cons, ← escapeDoc, escapeChar]
    split_ifs with hfeed hslash
    · subst hfeed
      simp [readDoc, ih, unescapeChar]
    · subst hslash
      simp [readDoc, ih, unescapeChar]
    · simp [readDoc, ih, hslash]

theorem readQuoted_escapeValue (cs rest : List Char) :
    readQuoted (escapeValue cs ++ '"' :: rest) = some (cs, rest) := by
  induction cs with
  | nil => rfl
  | cons c cs ih =>
    rw [escapeValue, List.flatMap_cons, ← escapeValue, List.append_assoc, escapeChar]
    split_ifs with hquote hfeed hslash
    · subst hquote
      simp [readQuoted, ih, unescapeChar]
    · subst hfeed
      simp [readQuoted, ih, unescapeChar]
    · subst hslash
      simp [readQuoted, ih, unescapeChar]
    · simp [readQuoted, ih, hquote, hslash]

theorem feed_not_mem_escapeDoc (cs : List Char) : '\n' ∉ escapeDoc cs := by
  intro hmem
  obtain ⟨c, -, hc⟩ := List.mem_flatMap.mp hmem
  unfold escapeChar at hc
  split_ifs at hc with hfeed
  · simp at hc
  · simp at hc
  · exact hfeed (List.mem_singleton.mp hc).symm

theorem feed_not_mem_escapeValue (cs : List Char) : '\n' ∉ escapeValue cs := by
  intro hmem
  obtain ⟨c, -, hc⟩ := List.mem_flatMap.mp hmem
  split_ifs at hc
  · simp at hc
  · exact feed_not_mem_escapeDoc [c] (by simpa [escapeDoc] using hc)

/-- Texts without backslashes and line feeds stand for themselves in a comment. -/
theorem escapeDoc_of_plain {cs : List Char} (h : ∀ c ∈ cs, isPlain c = true) : escapeDoc cs = cs := by
  induction cs with
  | nil => rfl
  | cons c cs ih =>
    obtain ⟨hslash, hfeed⟩ := Bool.and_eq_true_iff.mp (h c List.mem_cons_self)
    rw [escapeDoc, List.flatMap_cons, ← escapeDoc, ih fun d hd => h d (List.mem_cons_of_mem _ hd), escapeChar,
      if_neg (by simpa using hfeed), if_neg (by simpa using hslash), List.singleton_append]

/-- Texts that have no quotes either stand for themselves as label values. -/
theorem escapeValue_of_plain {cs : List Char} (h : ∀ c ∈ cs, isPlain c = true) (hquote : '"' ∉ cs) :
    escapeValue cs = cs := by
  have hdoc : escapeValue cs = escapeDoc cs := by
    refine List.flatMap_congr fun c hc => if_neg ?_
    rintro rfl
    exact hquote hc
  rw [hdoc, escapeDoc_of_plain h]

/-! ## Lines -/

/-- A label as it is written. -/
def labelText (l : Label) : List Char := l.1 ++ '=' :: '"' :: escapeValue l.2 ++ ['"']

/-- The labels after the first one. -/
def moreLabels : List Label → List Char
  | [] => ['}']
  | l :: ls => ',' :: labelText l ++ moreLabels ls

/-- Labels stand in braces, if there are any. -/
def labelsText : List Label → List Char
  | [] => []
  | l :: ls => '{' :: labelText l ++ moreLabels ls

/-- The labels stand between commas. -/
theorem intercalate_labelText (l : Label) (ls : List Label) :
    [','].intercalate ((l :: ls).map labelText) ++ ['}'] = labelText l ++ moreLabels ls := by
  induction ls generalizing l with
  | nil => simp [moreLabels]
  | cons l' ls ih =>
    have ih := ih l'
    rw [List.map_cons] at ih
    rw [List.map_cons, List.map_cons, List.intercalate_cons_cons, moreLabels, List.append_assoc, ih]
    simp

/-- How a comment of either kind begins. -/
def helpMark : List Char := ['#', ' ', 'H', 'E', 'L', 'P', ' ']

def typeMark : List Char := ['#', ' ', 'T', 'Y', 'P', 'E', ' ']

/-- A line without its end. -/
def Entry.text : Entry → List Char
  | .help name doc => helpMark ++ name ++ ' ' :: escapeDoc doc
  | .type name kind => typeMark ++ name ++ ' ' :: kind
  | .sample name labels value => name ++ labelsText labels ++ ' ' :: Nat.toDigits 10 value
  | .blank => []

/-- The names of the line are names. -/
def Entry.WellNamed : Entry → Prop
  | .help name _ => isName name = true
  | .type name kind => isName name = true ∧ isName kind = true
  | .sample name labels _ => isName name = true ∧ ∀ l ∈ labels, isName l.1 = true
  | .blank => True

/-- Lines, each with its end. -/
def text (entries : List Entry) : List Char := entries.flatMap fun e => e.text ++ ['\n']

/-! ## Reading a line -/

/-- A label. -/
def readLabel (cs : List Char) : Option (Label × List Char) := do
  let (name, rest) ← cutName cs
  match rest with
  | '=' :: '"' :: rest => (readQuoted rest).map fun p => ((name, p.1), p.2)
  | _ => none

/-- At most as many more labels as the number says, and the brace that closes them. -/
def readMoreLabels : ℕ → List Char → Option (List Label × List Char)
  | _, '}' :: rest => some ([], rest)
  | n + 1, ',' :: rest => do
    let (l, rest) ← readLabel rest
    let (ls, rest) ← readMoreLabels n rest
    return (l :: ls, rest)
  | _, _ => none

/-- Labels in braces, or none. -/
def readLabels : List Char → Option (List Label × List Char)
  | '{' :: rest => do
    let (l, rest) ← readLabel rest
    let (ls, rest) ← readMoreLabels rest.length rest
    return (l :: ls, rest)
  | rest => some ([], rest)

/-- The value after a blank. -/
def readValue : List Char → Option ℕ
  | ' ' :: c :: cs => if (c :: cs).all Char.isDigit then some (Nat.ofDigitChars 10 (c :: cs) 0) else none
  | _ => none

/-- A sample. -/
def readSample (cs : List Char) : Option Entry := do
  let (name, rest) ← cutName cs
  let (labels, rest) ← readLabels rest
  let value ← readValue rest
  return .sample name labels value

/-- What a comment says of a metric. -/
def readComment (build : List Char → List Char → Option Entry) (cs : List Char) : Option Entry := do
  let (name, rest) ← cutName cs
  match rest with
  | ' ' :: rest => build name rest
  | _ => none

/-- A line. -/
def readLine (line : List Char) : Option Entry :=
  if line = [] then some .blank
  else match line.dropPrefix? helpMark with
    | some rest => readComment (fun name doc => (readDoc doc).map (.help name)) rest
    | none =>
      match line.dropPrefix? typeMark with
      | some rest => readComment (fun name kind => if isName kind then some (.type name kind) else none) rest
      | none => readSample line

/-- Lines of which the last one is what follows the last end. -/
def readLines : List (List Char) → Option (List Entry)
  | [] => none
  | [last] => if last = [] then some [] else none
  | line :: next :: rest => do
    let entry ← readLine line
    let entries ← readLines (next :: rest)
    return entry :: entries

/-- A text. -/
def read (text : List Char) : Option (List Entry) := readLines (text.splitOn '\n')

/-! ## What is read of what was written -/

theorem readLabel_labelText {l : Label} (h : isName l.1 = true) (rest : List Char) :
    readLabel (labelText l ++ rest) = some (l, rest) := by
  have hname : cutName (labelText l ++ rest) = some (l.1, '=' :: '"' :: (escapeValue l.2 ++ '"' :: rest)) := by
    rw [← cutName_append h (c := '=') (by decide)]
    simp [labelText]
  rw [readLabel, hname]
  show (readQuoted _).map _ = _
  rw [readQuoted_escapeValue]
  rfl

theorem readMoreLabels_moreLabels {ls : List Label} (h : ∀ l ∈ ls, isName l.1 = true) (rest : List Char)
    {n : ℕ} (hn : ls.length ≤ n) : readMoreLabels n (moreLabels ls ++ rest) = some (ls, rest) := by
  induction ls generalizing n with
  | nil => simp [moreLabels, readMoreLabels]
  | cons l ls ih =>
    cases n with
    | zero => exact absurd hn (Nat.not_succ_le_zero _)
    | succ n =>
      have hlabel := readLabel_labelText (h l List.mem_cons_self) (moreLabels ls ++ rest)
      have hmore := ih (fun l' hl' => h l' (List.mem_cons_of_mem _ hl')) (Nat.le_of_succ_le_succ hn)
      rw [moreLabels, List.cons_append, List.cons_append, List.append_assoc, readMoreLabels, hlabel]
      show (readMoreLabels _ _).bind _ = _
      rw [hmore]
      rfl

theorem length_le_length_moreLabels (ls : List Label) : ls.length ≤ (moreLabels ls).length := by
  induction ls with
  | nil => exact Nat.zero_le _
  | cons l ls ih =>
    simp only [moreLabels, List.cons_append, List.length_cons, List.length_append]
    omega

theorem readLabels_labelsText {labels : List Label} (h : ∀ l ∈ labels, isName l.1 = true) (rest : List Char) :
    readLabels (labelsText labels ++ ' ' :: rest) = some (labels, ' ' :: rest) := by
  cases labels with
  | nil => rfl
  | cons l ls =>
    have hlabel := readLabel_labelText (h l List.mem_cons_self) (moreLabels ls ++ ' ' :: rest)
    have hlength : ls.length ≤ (moreLabels ls ++ ' ' :: rest).length := by
      rw [List.length_append]
      exact (length_le_length_moreLabels ls).trans (Nat.le_add_right _ _)
    have hmore := readMoreLabels_moreLabels (fun l' hl' => h l' (List.mem_cons_of_mem _ hl')) (' ' :: rest) hlength
    rw [labelsText, List.cons_append, List.cons_append, List.append_assoc, readLabels, hlabel]
    show (readMoreLabels _ _).bind _ = _
    rw [hmore]
    rfl

theorem readValue_toDigits (n : ℕ) : readValue (' ' :: Nat.toDigits 10 n) = some n := by
  cases hdigits : Nat.toDigits 10 n with
  | nil => exact absurd hdigits Nat.toDigits_ne_nil
  | cons c cs =>
    have hall : (c :: cs).all Char.isDigit = true := by
      rw [← hdigits]
      exact List.all_eq_true.mpr (isDigit_toDigits n)
    rw [readValue, if_pos hall, ← hdigits, Nat.ofDigitChars_ten_toDigits]

/-- No name goes on where labels or a blank begin. -/
theorem exists_head_labelsText (labels : List Label) (rest : List Char) :
    ∃ c after, labelsText labels ++ ' ' :: rest = c :: after ∧ isNameChar c = false := by
  cases labels with
  | nil => exact ⟨' ', rest, rfl, by decide⟩
  | cons l ls => exact ⟨'{', _, rfl, by decide⟩

theorem readSample_text {name : List Char} {labels : List Label} {value : ℕ}
    (h : (Entry.sample name labels value).WellNamed) :
    readSample (Entry.sample name labels value).text = some (.sample name labels value) := by
  obtain ⟨hname, hlabels⟩ := h
  have hcut : cutName (Entry.sample name labels value).text =
      some (name, labelsText labels ++ ' ' :: Nat.toDigits 10 value) := by
    obtain ⟨c, after, hafter, hc⟩ := exists_head_labelsText labels (Nat.toDigits 10 value)
    rw [Entry.text, List.append_assoc, hafter]
    exact cutName_append hname hc after
  rw [readSample, hcut]
  show (readLabels _).bind _ = _
  rw [readLabels_labelsText hlabels]
  show (readValue _).bind _ = _
  rw [readValue_toDigits]
  rfl

theorem readComment_append {name : List Char} (h : isName name = true)
    (build : List Char → List Char → Option Entry) (rest : List Char) :
    readComment build (name ++ ' ' :: rest) = build name rest := by
  rw [readComment, cutName_append h (by decide)]
  rfl

/-- No name starts with a hash. -/
theorem dropPrefix?_hash {name : List Char} (h : isName name = true) (pre rest : List Char) :
    (name ++ rest).dropPrefix? ('#' :: pre) = none := by
  cases name with
  | nil => cases h
  | cons c cs =>
    have hc : c ≠ '#' := by
      rintro rfl
      exact absurd (all_of_isName h _ List.mem_cons_self) (by decide)
    rw [List.cons_append, List.dropPrefix?, if_neg (by simpa using hc)]

theorem readLine_text {e : Entry} (h : e.WellNamed) : readLine e.text = some e := by
  cases e with
  | help name doc =>
    have htext : (Entry.help name doc).text = helpMark ++ (name ++ ' ' :: escapeDoc doc) :=
      List.append_assoc _ _ _
    rw [readLine, htext, if_neg (by simp), List.dropPrefix?_append_of_beq _ (by simp)]
    show readComment _ _ = _
    rw [readComment_append h, readDoc_escapeDoc]
    rfl
  | type name kind =>
    have htext : (Entry.type name kind).text = typeMark ++ (name ++ ' ' :: kind) :=
      List.append_assoc _ _ _
    have hhelp : (typeMark ++ (name ++ ' ' :: kind)).dropPrefix? helpMark = none := rfl
    rw [readLine, htext, if_neg (by simp), hhelp, List.dropPrefix?_append_of_beq _ (by simp)]
    show readComment _ _ = _
    rw [readComment_append h.1, if_pos h.2]
  | sample name labels value =>
    have htext : (Entry.sample name labels value).text =
        name ++ (labelsText labels ++ ' ' :: Nat.toDigits 10 value) := List.append_assoc _ _ _
    have hne : (Entry.sample name labels value).text ≠ [] := by
      intro heq
      rw [htext, List.append_eq_nil_iff] at heq
      have hname := h.1
      rw [heq.1] at hname
      cases hname
    have hhelp : (Entry.sample name labels value).text.dropPrefix? helpMark = none := by
      rw [htext]
      exact dropPrefix?_hash h.1 _ _
    have htype : (Entry.sample name labels value).text.dropPrefix? typeMark = none := by
      rw [htext]
      exact dropPrefix?_hash h.1 _ _
    rw [readLine, if_neg hne, hhelp, htype]
    exact readSample_text h
  | blank => rfl

theorem feed_not_mem_of_isName {name : List Char} (h : isName name = true) : '\n' ∉ name := by
  intro hmem
  exact absurd (all_of_isName h _ hmem) (by decide)

theorem feed_not_mem_moreLabels {ls : List Label} (h : ∀ l ∈ ls, isName l.1 = true) : '\n' ∉ moreLabels ls := by
  induction ls with
  | nil => decide
  | cons l ls ih =>
    have hname := feed_not_mem_of_isName (h l List.mem_cons_self)
    have hvalue := feed_not_mem_escapeValue l.2
    have ih := ih fun l' hl' => h l' (List.mem_cons_of_mem _ hl')
    simp [moreLabels, labelText, hname, hvalue, ih]

theorem feed_not_mem_labelsText {labels : List Label} (h : ∀ l ∈ labels, isName l.1 = true) :
    '\n' ∉ labelsText labels := by
  cases labels with
  | nil => exact List.not_mem_nil
  | cons l ls =>
    have hmore := feed_not_mem_moreLabels h
    simpa [moreLabels, labelsText] using hmore

theorem feed_not_mem_text {e : Entry} (h : e.WellNamed) : '\n' ∉ e.text := by
  cases e with
  | help name doc =>
    have hname := feed_not_mem_of_isName h
    have hdoc := feed_not_mem_escapeDoc doc
    simp [Entry.text, helpMark, hname, hdoc]
  | type name kind =>
    have hname := feed_not_mem_of_isName h.1
    have hkind := feed_not_mem_of_isName h.2
    simp [Entry.text, typeMark, hname, hkind]
  | sample name labels value =>
    have hname := feed_not_mem_of_isName h.1
    have hlabels := feed_not_mem_labelsText h.2
    have hdigits : '\n' ∉ Nat.toDigits 10 value := by
      intro hmem
      exact absurd (isDigit_toDigits value _ hmem) (by decide)
    simp [Entry.text, hname, hlabels, hdigits]
  | blank => exact List.not_mem_nil

/-- A reader finds the lines that were written. -/
theorem read_text {entries : List Entry} (h : ∀ e ∈ entries, e.WellNamed) : read (text entries) = some entries := by
  induction entries with
  | nil => rfl
  | cons e entries ih =>
    have hsplit : (text (e :: entries)).splitOn '\n' = e.text :: (text entries).splitOn '\n' := by
      rw [text, List.flatMap_cons, ← text, List.append_assoc, List.singleton_append]
      exact List.splitOn_append_cons_self_of_not_mem (feed_not_mem_text (h e List.mem_cons_self)) _
    have ih := ih fun e' he' => h e' (List.mem_cons_of_mem _ he')
    rw [read] at ih ⊢
    rw [hsplit]
    cases hrest : (text entries).splitOn '\n' with
    | nil => exact absurd hrest (List.splitOn_ne_nil _ _)
    | cons next rest =>
      rw [hrest] at ih
      rw [readLines, readLine_text (h e List.mem_cons_self), ih]
      rfl

end InferenceGateway.Common.Exposition
