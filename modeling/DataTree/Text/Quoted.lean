import DataTree.Text.Printable

/-!
# Quoted text

A string in messages stands between quotes: single ones, or double ones when it holds a single
quote and no double one. The quote and the backslash are escaped, as are line feed, carriage
return and tab; any other unprintable character is written by its code point, in the shortest of
two, four or eight lower-case hexadecimal digits. Text with nothing to escape stands as it is
(`quoted_of_plain`).
-/

namespace DataTree.Text

/-- The `width` lowest hexadecimal digits of `n`. -/
def hex (width n : Nat) : List Char :=
  let digits := Nat.toDigits 16 n
  List.replicate (width - digits.length) '0' ++ digits

/-- An unprintable character, by its code point. -/
def codePoint (c : Char) : List Char :=
  if c.toNat < 0x100 then '\\' :: 'x' :: hex 2 c.toNat
  else if c.toNat < 0x10000 then '\\' :: 'u' :: hex 4 c.toNat
  else '\\' :: 'U' :: hex 8 c.toNat

/-- `c` as it stands between two of `mark`. -/
def escape (mark c : Char) : List Char :=
  if c = mark ∨ c = '\\' then ['\\', c]
  else if c = '\n' then ['\\', 'n']
  else if c = '\r' then ['\\', 'r']
  else if c = '\t' then ['\\', 't']
  else if printable c then [c]
  else codePoint c

def singleQuote : Char := '\x27'

def doubleQuote : Char := '\x22'

/-- The quote that needs the fewest escapes; the single one if there is a choice. -/
def quoteMark (cs : List Char) : Char :=
  if singleQuote ∈ cs ∧ doubleQuote ∉ cs then doubleQuote else singleQuote

def quoted (s : String) : String :=
  let mark := quoteMark s.toList
  String.ofList (mark :: s.toList.flatMap (escape mark) ++ [mark])

/-- Nothing in the text has to be escaped between single quotes. -/
def IsPlain (s : String) : Prop :=
  ∀ c ∈ s.toList, c ≠ singleQuote ∧ c ≠ '\\' ∧ printable c = true

instance (s : String) : Decidable (IsPlain s) :=
  inferInstanceAs (Decidable (∀ c ∈ s.toList, c ≠ singleQuote ∧ c ≠ '\\' ∧ printable c = true))

theorem escape_of_printable {mark c : Char} (hm : c ≠ mark) (hb : c ≠ '\\')
    (hp : printable c = true) : escape mark c = [c] := by
  have hne : ∀ d, printable d = false → c ≠ d := by
    rintro d hd rfl
    exact Bool.false_ne_true (hd.symm.trans hp)
  rw [escape, if_neg (not_or.2 ⟨hm, hb⟩), if_neg (hne _ (by decide)), if_neg (hne _ (by decide)),
    if_neg (hne _ (by decide)), if_pos hp]

/-- Plain text stands between single quotes as it is. -/
theorem quoted_of_plain {s : String} (h : IsPlain s) : quoted s = "'" ++ s ++ "'" := by
  have hmark : quoteMark s.toList = singleQuote := if_neg fun hm => (h _ hm.1).1 rfl
  have hescape : s.toList.map (escape singleQuote) = s.toList.map fun c => [c] :=
    List.map_congr_left fun c hc => escape_of_printable (h c hc).1 (h c hc).2.1 (h c hc).2.2
  have hsame : s.toList.flatMap (escape singleQuote) = s.toList := by
    rw [List.flatMap_def, hescape, ← List.flatMap_def, List.flatMap_singleton']
  simp only [quoted, hmark, hsame]
  rw [← String.toList_inj]
  simp [singleQuote]

/-- Items with commas between them. -/
def commaList (items : List String) : String :=
  ", ".intercalate items

/-- A list of strings between square brackets. -/
def quotedList (items : List String) : String :=
  "[" ++ commaList (items.map quoted) ++ "]"

end DataTree.Text
