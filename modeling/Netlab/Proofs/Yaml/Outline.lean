import Mathlib.Algebra.GroupWithZero.Nat
import Netlab.Yaml.Document
import Netlab.Yaml.Layout

/-!
# Texts in block style

In block style there are no brackets, comments, anchors or tags: indentation and dashes tell what
belongs to what, a key stands in front of its colon and a scalar on one line.  An `Outline` is such
a text as a tree that keeps what its author chose: how far each block is indented, whether an item
or value stands beside its dash or colon or below it, whether the list of a key is indented at all,
and the spaces behind everything.

* `Outline.lines`   the lines that the tree spells;
* `Written`         the texts of such lines, with blank lines anywhere and line ends of either kind;
* `Outline.root`    the node that it stands for.
-/

namespace Netlab.Yaml

/-! ## scalars -/

/-- the characters inside a line -/
def isInline (c : Char) : Bool := isAllowed c && !isBreak c

/-- Whether a plain scalar that has begun goes on to the end of the characters: no colon and no
number sign ends it, and it does not end with a space.  `behind` is what follows. -/
def isPlainRest (behind : List Char) : List Char → Bool
  | [] => true
  | c :: cs =>
    isInline c && !(c == ':' && startsGap (cs ++ behind))
      && !(isSpace c && (cs.isEmpty || cs.head? == some '#')) && isPlainRest behind cs

/-- Whether the characters are a plain scalar in front of `behind`.  What could be a mark between
documents or of the byte order is left out. -/
def isPlain (behind : List Char) : List Char → Bool
  | [] => false
  | c :: cs =>
    Layout.startsPlain false c (cs ++ behind) && !(c == '-' && startsGap (cs ++ behind))
      && !startsMark (c :: cs) && c != '\ufeff' && isPlainRest behind (c :: cs)

/-- a key -/
structure Word where
  chars : List Char
  plain : isPlain [':'] chars = true
  short : (chars.map Char.utf8Size).sum ≤ 1024

/-- what stands for one character between double quotes -/
inductive QuotePart where
  | raw (c : Char)
  /-- a backslash and a letter -/
  | short (letter c : Char)
  /-- a backslash, a letter and the digits of a code point -/
  | code (letter : Char) (digits : List Char) (c : Char)

namespace QuotePart

/-- the character that is meant -/
def meant : QuotePart → Char
  | raw c => c
  | short _ c => c
  | code _ _ c => c

def chars : QuotePart → List Char
  | raw c => [c]
  | short letter _ => ['\\', letter]
  | code letter digits _ => '\\' :: letter :: digits

/-- the value of hex digits behind others of the value `value` -/
def valueFrom? (value : Nat) : List Char → Option Nat
  | [] => some value
  | c :: cs => do valueFrom? (value * 16 + (← hexValue? c)) cs

def isValid : QuotePart → Bool
  | raw c => isInline c && c != '"' && c != '\\'
  | short letter c => isInline letter && escapedChar? letter == some c
  | code letter digits c =>
    digits.all isInline && escapeDigits? letter == some digits.length
      && (valueFrom? 0 digits).bind charOf? == some c

end QuotePart

/-- a scalar on one line -/
inductive Scalar where
  | plain (chars : List Char) (h : isPlain [] chars = true)
  | single (text : List Char) (h : text.all isInline = true)
  | double (parts : List QuotePart) (h : parts.all QuotePart.isValid = true)

/-- a character between single quotes -/
def singleQuoted (c : Char) : List Char := if c = '\'' then ['\'', '\''] else [c]

namespace Scalar

def chars : Scalar → List Char
  | plain cs _ => cs
  | single text _ => '\'' :: (text.flatMap singleQuoted ++ ['\''])
  | double parts _ => '"' :: (parts.flatMap QuotePart.chars ++ ['"'])

def isBare : Scalar → Bool
  | plain _ _ => true
  | _ => false

def text : Scalar → List Char
  | plain cs _ => cs
  | single text _ => text
  | double parts _ => parts.map QuotePart.meant

def token (s : Scalar) : Token := .scalar s.isBare (String.ofList s.text)

def node (s : Scalar) : Node := .scalar none s.isBare (String.ofList s.text)

end Scalar

namespace Word

def token (w : Word) : Token := .scalar true (String.ofList w.chars)

def node (w : Word) : Node := .scalar none true (String.ofList w.chars)

end Word

/-! ## lines -/

def spaces (n : Nat) : List Char := List.replicate n ' '

/-- what a line holds behind its indentation and the dashes with something beside them -/
inductive Body where
  /-- the mark in front of a document -/
  | mark
  /-- a dash with nothing beside it -/
  | dash
  | scalar (s : Scalar)
  /-- a key with nothing beside its colon -/
  | key (k : Word)
  /-- a key and its value, with so many spaces between them besides the one that is needed -/
  | pair (k : Word) (gap : Nat) (s : Scalar)

def Body.chars : Body → List Char
  | mark => ['-', '-', '-']
  | dash => ['-']
  | scalar s => s.chars
  | key k => k.chars ++ [':']
  | pair k gap s => k.chars ++ ':' :: (spaces (gap + 1) ++ s.chars)

/-- where the body of a line stands -/
structure Lead where
  indent : Nat
  /-- of each dash in front, the spaces behind it besides the one that is needed -/
  dashes : List Nat := []

namespace Lead

def dash (l : Lead) (gap : Nat) : Lead := { l with dashes := l.dashes ++ [gap] }

def column (l : Lead) : Nat := l.indent + (l.dashes.map (· + 2)).sum

@[simp] theorem column_indent (n : Nat) : column ⟨n, []⟩ = n := rfl

@[simp] theorem column_dash (l : Lead) (gap : Nat) : (l.dash gap).column = l.column + gap + 2 := by
  simp only [column, dash, List.map_append, List.map_cons, List.map_nil, List.sum_append,
    List.sum_cons, List.sum_nil]
  omega

end Lead

structure Line where
  lead : Lead
  body : Body
  /-- the spaces at the end -/
  trail : Nat

/-- a dash and the spaces behind it -/
def dashChars (gap : Nat) : List Char := '-' :: spaces (gap + 1)

namespace Line

/-- the line without its indentation and the spaces at its end -/
def content (l : Line) : List Char := l.lead.dashes.flatMap dashChars ++ l.body.chars

def chars (l : Line) : List Char := spaces l.lead.indent ++ (l.content ++ spaces l.trail)

end Line

/-- the end of a line -/
inductive LineEnd where
  | feed
  | returnFeed

def LineEnd.chars : LineEnd → List Char
  | feed => ['\n']
  | returnFeed => ['\r', '\n']

/-- The text consists of the lines, with blank ones between them or not. -/
inductive Written : List Line → List Char → Prop
  | done (n : Nat) : Written [] (spaces n)
  | last (l : Line) : Written [l] l.chars
  | blank (n : Nat) (e : LineEnd) {ls : List Line} {cs : List Char} (h : Written ls cs) :
    Written ls (spaces n ++ (e.chars ++ cs))
  | line (l : Line) (e : LineEnd) {ls : List Line} {cs : List Char} (h : Written ls cs) :
    Written (l :: ls) (l.chars ++ (e.chars ++ cs))

/-! ## blocks -/

mutual

inductive Block where
  | scalar (s : Scalar) (trail : Nat)
  | list (items : Items)
  | map (entries : Entries)

inductive Items where
  | last (item : Item)
  | more (item : Item) (items : Items)

/-- an item of a list, from its dash on -/
inductive Item where
  | empty (trail : Nat)
  | beside (gap : Nat) (b : Block)
  /-- a block on the lines below, indented by `offset` more than has to be -/
  | under (trail offset : Nat) (b : Block)

inductive Entries where
  | last (key : Word) (value : Value)
  | more (key : Word) (value : Value) (entries : Entries)

/-- the value of an entry, from its colon on -/
inductive Value where
  | empty (trail : Nat)
  | beside (gap : Nat) (s : Scalar) (trail : Nat)
  /-- a block on the lines below, indented by `offset` more than has to be -/
  | under (trail offset : Nat) (b : Block)
  /-- a list whose dashes stand where the key does -/
  | level (trail : Nat) (items : Items)

end

mutual

def Block.lines (l : Lead) : Block → List Line
  | .scalar s trail => [⟨l, .scalar s, trail⟩]
  | .list items => items.lines l
  | .map entries => entries.lines l

def Items.lines (l : Lead) : Items → List Line
  | .last item => item.lines l
  | .more item items => item.lines l ++ items.lines ⟨l.column, []⟩

def Item.lines (l : Lead) : Item → List Line
  | .empty trail => [⟨l, .dash, trail⟩]
  | .beside gap b => b.lines (l.dash gap)
  | .under trail offset b => ⟨l, .dash, trail⟩ :: b.lines ⟨l.column + 1 + offset, []⟩

def Entries.lines (l : Lead) : Entries → List Line
  | .last key value => value.lines l key
  | .more key value entries => value.lines l key ++ entries.lines ⟨l.column, []⟩

def Value.lines (l : Lead) (key : Word) : Value → List Line
  | .empty trail => [⟨l, .key key, trail⟩]
  | .beside gap s trail => [⟨l, .pair key gap s, trail⟩]
  | .under trail offset b => ⟨l, .key key, trail⟩ :: b.lines ⟨l.column + 1 + offset, []⟩
  | .level trail items => ⟨l, .key key, trail⟩ :: items.lines ⟨l.column, []⟩

end

mutual

def Block.node : Block → Node
  | .scalar s _ => s.node
  | .list items => .list items.nodes
  | .map entries => .map entries.nodes

def Items.nodes : Items → List Node
  | .last item => [item.node]
  | .more item items => item.node :: items.nodes

def Item.node : Item → Node
  | .empty _ => .empty
  | .beside _ b => b.node
  | .under _ _ b => b.node

def Entries.nodes : Entries → List (Node × Node)
  | .last key value => [(key.node, value.node)]
  | .more key value entries => (key.node, value.node) :: entries.nodes

def Value.node : Value → Node
  | .empty _ => .empty
  | .beside _ s _ => s.node
  | .under _ _ b => b.node
  | .level _ items => .list items.nodes

end

/-! ## documents -/

/-- a text in block style -/
structure Outline where
  /-- the spaces behind the mark in front of the document, if there is one -/
  mark : Option Nat := none
  indent : Nat := 0
  block : Option Block := none

namespace Outline

def lines (o : Outline) : List Line :=
  (o.mark.map fun trail => ⟨⟨0, []⟩, .mark, trail⟩).toList
    ++ o.block.elim [] fun b => b.lines ⟨o.indent, []⟩

def root (o : Outline) : Node := o.block.elim .empty Block.node

end Outline

end Netlab.Yaml
