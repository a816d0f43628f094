/-!
# Shell words

`quote` writes one word so that a shell reads it back as that word: a word of characters that a
shell takes literally stays as it is, any other is put between single quotes, where a single quote
itself is written `'\''`.
-/

namespace Netlab.Shell

/-- punctuation that a shell takes literally inside a word -/
def plainMarks : List Char := ['-', '_', '.', '/', ':', '=', '@', '%', '+', ',', '#']

def isPlainChar (c : Char) : Bool := c.isAlphanum || plainMarks.contains c

/-- words that need no quotes: not empty, no comment, literal characters only -/
def isPlain (w : List Char) : Bool :=
  !w.isEmpty && w.head? != some '#' && w.all isPlainChar

/-- the inside of a quoted word -/
def quoteBody : List Char → List Char
  | [] => []
  | '\'' :: cs => '\'' :: '\\' :: '\'' :: '\'' :: quoteBody cs
  | c :: cs => c :: quoteBody cs

def quoteChars (w : List Char) : List Char :=
  if isPlain w then w else '\'' :: (quoteBody w ++ ['\''])

/-- one word of a shell command line -/
def quote (w : String) : String := String.ofList (quoteChars w.toList)

/-- the words of a command line, with one space between two words -/
def joinWords (ws : List String) : String := " ".intercalate (ws.map quote)

theorem quoteBody_quote (cs : List Char) :
    quoteBody ('\'' :: cs) = '\'' :: '\\' :: '\'' :: '\'' :: quoteBody cs := rfl

theorem quoteBody_cons (c : Char) (cs : List Char) (h : c ≠ '\'') :
    quoteBody (c :: cs) = c :: quoteBody cs := by
  rw [quoteBody]
  exact h

theorem quoteBody_append (a b : List Char) : quoteBody (a ++ b) = quoteBody a ++ quoteBody b := by
  induction a with
  | nil => rfl
  | cons c cs ih =>
    by_cases h : c = '\''
    · subst h
      simp only [List.cons_append, quoteBody_quote, ih]
    · simp only [List.cons_append, quoteBody_cons _ _ h, ih]

theorem quote_toList (w : String) : (quote w).toList = quoteChars w.toList := String.toList_ofList

end Netlab.Shell
