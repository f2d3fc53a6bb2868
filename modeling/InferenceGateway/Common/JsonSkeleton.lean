import InferenceGateway.Common.Utf8

/-!
# The structure of a JSON text

A lexer that knows about string literals only, and about them only where they end: at the first quote that
no backslash escapes. What it sees outside of the literals, with their quotes, is the skeleton of the text.
A text that a lexer inside a literal passes over, and leaves it there, can be pasted into a literal without
any effect on the skeleton.
-/

namespace InferenceGateway.Common

/-- Where a lexer stands. -/
inductive LexState
  | outside
  | inside
  /-- Inside, behind a backslash. -/
  | escaped
deriving DecidableEq

/-- Where the lexer stands behind a byte. -/
def LexState.next : LexState → UInt8 → LexState
  | .outside, b => if b = asciiByte '"' then .inside else .outside
  | .inside, b =>
    if b = asciiByte '"' then .outside else if b = asciiByte '\\' then .escaped else .inside
  | .escaped, _ => .inside

/-- The byte belongs to the skeleton. -/
def LexState.shows : LexState → UInt8 → Bool
  | .outside, _ => true
  | .inside, b => b = asciiByte '"'
  | .escaped, _ => false

/-- Where the lexer stands behind a text. -/
def LexState.after (st : LexState) (text : List UInt8) : LexState := text.foldl LexState.next st

/-- What the lexer sees outside of literals. -/
def LexState.skeleton : LexState → List UInt8 → List UInt8
  | _, [] => []
  | st, b :: text => if st.shows b then b :: (st.next b).skeleton text else (st.next b).skeleton text

/-- A text without the contents of its literals. -/
def skeleton (text : List UInt8) : List UInt8 := LexState.outside.skeleton text

theorem LexState.after_append (st : LexState) (s t : List UInt8) :
    st.after (s ++ t) = (st.after s).after t := List.foldl_append

theorem LexState.skeleton_append (st : LexState) (s t : List UInt8) :
    st.skeleton (s ++ t) = st.skeleton s ++ (st.after s).skeleton t := by
  induction s generalizing st with
  | nil => rfl
  | cons b s ih =>
    rw [List.cons_append, skeleton, skeleton, ih]
    split <;> rfl

/-- A lexer inside a literal stays there. -/
structure StaysInside (text : List UInt8) : Prop where
  after : LexState.inside.after text = .inside
  skeleton : LexState.inside.skeleton text = []

theorem StaysInside.nil : StaysInside [] := ⟨rfl, rfl⟩

theorem StaysInside.append {s t : List UInt8} (hs : StaysInside s) (ht : StaysInside t) :
    StaysInside (s ++ t) where
  after := by rw [LexState.after_append, hs.after, ht.after]
  skeleton := by rw [LexState.skeleton_append, hs.skeleton, hs.after, ht.skeleton, List.append_nil]

/-- A byte that is neither a quote nor a backslash. -/
theorem StaysInside.singleton {b : UInt8} (hquote : b ≠ asciiByte '"') (hback : b ≠ asciiByte '\\') :
    StaysInside [b] where
  after := by
    show LexState.next .inside b = .inside
    rw [LexState.next, if_neg hquote, if_neg hback]
  skeleton := by
    rw [LexState.skeleton, LexState.shows, decide_eq_false hquote]
    rfl

/-- A backslash and any byte. -/
theorem StaysInside.escape (b : UInt8) : StaysInside [asciiByte '\\', b] := ⟨rfl, rfl⟩

/-- What is pasted into a literal leaves no trace. -/
theorem StaysInside.skeleton_paste {s : List UInt8} (hs : StaysInside s) {head : List UInt8}
    (hhead : LexState.outside.after head = .inside) (tail : List UInt8) :
    Common.skeleton (head ++ (s ++ tail)) = Common.skeleton (head ++ tail) := by
  simp only [Common.skeleton, LexState.skeleton_append, hhead, hs.skeleton, hs.after, List.nil_append]

end InferenceGateway.Common
