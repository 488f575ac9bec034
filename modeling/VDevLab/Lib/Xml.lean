import VDevLab.Lib.PyStr

/-!
# XML texts

Documents of elements, attributes and character data: how they are written
with escapes and in an encoding, and how XML 1.0 reads them. A document type,
comments, processing instructions and CDATA sections are not read, and a name
has no prefix.
-/

namespace Xml

open PyStr

/-! ## Characters -/

/-- `Char`. -/
def isXmlChar (c : CodePoint) : Bool :=
  c.val == 0x09 || c.val == 0x0a || c.val == 0x0d || (0x20 ≤ c.val && c.val ≤ 0xd7ff) ||
    (0xe000 ≤ c.val && c.val ≤ 0xfffd) || 0x10000 ≤ c.val

/-- A character of `S`. -/
def isWs (c : CodePoint) : Bool := c == ch ' ' || c == ch '\t' || c == ch '\n' || c == ch '\r'

def skipWs (s : PyStr) : PyStr := s.dropWhile isWs

def inRanges (ranges : List (Nat × Nat)) (c : CodePoint) : Bool :=
  ranges.any fun r => r.1 ≤ c.val && c.val ≤ r.2

/-- `NameStartChar`, without the colon. -/
def isNameStart : CodePoint → Bool :=
  inRanges [(0x41, 0x5a), (0x5f, 0x5f), (0x61, 0x7a), (0xc0, 0xd6), (0xd8, 0xf6), (0xf8, 0x2ff),
    (0x370, 0x37d), (0x37f, 0x1fff), (0x200c, 0x200d), (0x2070, 0x218f), (0x2c00, 0x2fef),
    (0x3001, 0xd7ff), (0xf900, 0xfdcf), (0xfdf0, 0xfffd), (0x10000, 0xeffff)]

/-- `NameChar`, without the colon. -/
def isNameChar (c : CodePoint) : Bool :=
  isNameStart c ||
    inRanges [(0x2d, 0x2e), (0x30, 0x39), (0xb7, 0xb7), (0x300, 0x36f), (0x203f, 0x2040)] c

/-- `Name`. -/
def isName : PyStr → Bool
  | [] => false
  | c :: s => isNameStart c && s.all isNameChar

/-! ## Documents -/

/-- An element; its text is what stands before the first child, and each child
has the text behind it as its tail. -/
inductive Element
  | element (tag : PyStr) (attributes : List (PyStr × PyStr)) (text : PyStr)
      (children : List (Element × PyStr))

theorem all_and_all {α : Type} (p q : α → Bool) (l : List α) :
    (l.all p && l.all q) = l.all fun a => p a && q a := by
  induction l with
  | nil => rfl
  | cons a l ih =>
    rw [List.all_cons, List.all_cons, List.all_cons, ← ih]
    ac_rfl

namespace Element

def tag : Element → PyStr
  | .element tag _ _ _ => tag

def attributes : Element → List (PyStr × PyStr)
  | .element _ attributes _ _ => attributes

def text : Element → PyStr
  | .element _ _ text _ => text

def children : Element → List (Element × PyStr)
  | .element _ _ _ children => children

/-- The value of an attribute. -/
def get (e : Element) (key : PyStr) : Option PyStr :=
  (e.attributes.find? fun a => a.1 = key).map (·.2)

/-- The first child with the tag. -/
def find (e : Element) (tag : PyStr) : Option Element :=
  (e.children.find? fun c => c.1.tag = tag).map (·.1)

mutual

/-- Whether `value` holds of every value of an attribute, and `data` of every
text and tail. -/
def every (value data : PyStr → Bool) : Element → Bool
  | .element _ attributes text children =>
      attributes.all (fun a => value a.2) && data text && everyChild value data children

def everyChild (value data : PyStr → Bool) : List (Element × PyStr) → Bool
  | [] => true
  | (child, tail) :: children =>
      child.every value data && data tail && everyChild value data children

end

mutual

theorem every_and (p p' d d' : PyStr → Bool) : ∀ e : Element,
    (e.every p d && e.every p' d') = e.every (fun s => p s && p' s) fun s => d s && d' s
  | .element tag pairs text children => by
    simp only [every, ← everyChild_and p p' d d' children, ← all_and_all]
    ac_rfl

theorem everyChild_and (p p' d d' : PyStr → Bool) : ∀ children : List (Element × PyStr),
    (everyChild p d children && everyChild p' d' children) =
      everyChild (fun s => p s && p' s) (fun s => d s && d' s) children
  | [] => rfl
  | (child, tail) :: children => by
    simp only [everyChild, ← every_and p p' d d' child, ← everyChild_and p p' d d' children]
    ac_rfl

end

theorem every_mono {p p' d d' : PyStr → Bool} (hp : ∀ s, p s = true → p' s = true)
    (hd : ∀ s, d s = true → d' s = true) {e : Element} (h : e.every p d = true) :
    e.every p' d' = true := by
  have hp' : (fun s => p s && p' s) = p := by
    funext s
    by_cases hs : p s = true
    · rw [hs, hp s hs, Bool.and_self]
    · rw [Bool.eq_false_iff.mpr hs, Bool.false_and]
  have hd' : (fun s => d s && d' s) = d := by
    funext s
    by_cases hs : d s = true
    · rw [hs, hd s hs, Bool.and_self]
    · rw [Bool.eq_false_iff.mpr hs, Bool.false_and]
  have hboth := every_and p p' d d' e
  rw [hp', hd', h, Bool.true_and] at hboth
  exact hboth

/-- Whether `p` holds of every character that is no markup. -/
def everyChar (p : CodePoint → Bool) (e : Element) : Bool := e.every (·.all p) (·.all p)

mutual

/-- Tags and attributes have names of which `p` holds, and no attribute stands
twice. -/
def named (p : PyStr → Bool) : Element → Bool
  | .element tag attributes _ children =>
      p tag && attributes.all (fun a => p a.1) && decide (attributes.map Prod.fst).Nodup &&
        namedChildren p children

def namedChildren (p : PyStr → Bool) : List (Element × PyStr) → Bool
  | [] => true
  | (child, _) :: children => child.named p && namedChildren p children

end

end Element

/-! ## Writing -/

/-- The escape of a character in character data. -/
def escapeCdata (c : CodePoint) : PyStr :=
  if c = ch '&' then py "&amp;"
  else if c = ch '<' then py "&lt;"
  else if c = ch '>' then py "&gt;"
  else [c]

/-- The escape of a character in the value of an attribute. -/
def escapeAttrib (c : CodePoint) : PyStr :=
  if c = ch '"' then py "&quot;"
  else if c = ch '\r' then py "&#13;"
  else if c = ch '\n' then py "&#10;"
  else if c = ch '\t' then py "&#09;"
  else escapeCdata c

def printAttribute (a : PyStr × PyStr) : PyStr :=
  ch ' ' :: a.1 ++ py "=\"" ++ a.2.flatMap escapeAttrib ++ [ch '"']

mutual

/-- An element with its children; an empty one is closed at once. -/
def serialize : Element → PyStr
  | .element tag attributes text children =>
      ch '<' :: tag ++ attributes.flatMap printAttribute ++
        if text.isEmpty && children.isEmpty then py " />"
        else ch '>' :: text.flatMap escapeCdata ++ serializeChildren children ++ py "</" ++ tag ++ [ch '>']

def serializeChildren : List (Element × PyStr) → PyStr
  | [] => []
  | (child, tail) :: children =>
      serialize child ++ tail.flatMap escapeCdata ++ serializeChildren children

end

/-- The reference to a character by its number. -/
def charRef (c : CodePoint) : PyStr := py "&#" ++ decimal c.val ++ py ";"

/-- What a writer does whose encoding has not all characters. -/
def charRefs (encodes : CodePoint → Bool) (s : PyStr) : PyStr :=
  s.flatMap fun c => if encodes c then [c] else charRef c

/-- The document with a declaration, as far as the encoding goes. -/
def write (encodes : CodePoint → Bool) (e : Element) : PyStr :=
  charRefs encodes (py "<?xml version='1.0' encoding='utf-8'?>\n" ++ serialize e)

/-! ## Reading -/

/-- Strip a word from the front. -/
def after (word s : PyStr) : Option PyStr :=
  if word.isPrefixOf s then some (s.drop word.length) else none

def hexValue (c : CodePoint) : Option Nat :=
  if isDigit c then some (digitValue c)
  else if 0x61 ≤ c.val ∧ c.val ≤ 0x66 then some (c.val - 0x61 + 10)
  else if 0x41 ≤ c.val ∧ c.val ≤ 0x46 then some (c.val - 0x41 + 10)
  else none

/-- The character of a number, which must be one of XML. -/
def legalChar (n : Nat) : Option CodePoint :=
  if h : n < 0x110000 then if isXmlChar ⟨n, h⟩ then some ⟨n, h⟩ else none else none

/-- The character that a reference stands for. -/
def reference (name : PyStr) : Option CodePoint :=
  if name = py "amp" then some (ch '&')
  else if name = py "lt" then some (ch '<')
  else if name = py "gt" then some (ch '>')
  else if name = py "quot" then some (ch '"')
  else if name = py "apos" then some (ch '\'')
  else match after (py "#x") name, after (py "#") name with
  | some digits, _ => do
      let values ← digits.mapM hexValue
      if values.isEmpty then none else legalChar (Nat.ofDigits 16 values.reverse)
  | none, some digits =>
      if digits.all isDigit && !digits.isEmpty then legalChar (natOfDigits digits) else none
  | none, none => none

/-- Replace the references; inside of one its name so far is kept. -/
def expand : Option PyStr → PyStr → Option PyStr
  | none, [] => some []
  | some _, [] => none
  | none, c :: s =>
      if c = ch '&' then expand (some []) s
      else if c = ch '<' then none
      else (expand none s).map (c :: ·)
  | some name, c :: s =>
      if c = ch ';' then do
        let r ← reference name
        (expand none s).map (r :: ·)
      else expand (some (name ++ [c])) s

/-- `CharData` and references, up to the next `<`. -/
def characters (s : PyStr) : Option (PyStr × PyStr) :=
  let raw := s.takeWhile (· != ch '<')
  if isSubstring (py "]]>") raw then none
  else (expand none raw).map fun text => (text, s.dropWhile (· != ch '<'))

def name (s : PyStr) : Option (PyStr × PyStr) :=
  let word := s.takeWhile isNameChar
  if isName word then some (word, s.dropWhile isNameChar) else none

/-- `AttValue`: blanks are read as spaces. -/
def quoted : PyStr → Option (PyStr × PyStr)
  | [] => none
  | q :: s =>
      if q = ch '"' || q = ch '\'' then
        match s.dropWhile (· != q) with
        | [] => none
        | _ :: rest =>
            (expand none ((s.takeWhile (· != q)).map fun c => if isWs c then ch ' ' else c)).map
              fun value => (value, rest)
      else none

/-- Attributes, as long as a blank and a name follow. -/
def attributes : Nat → PyStr → Option (List (PyStr × PyStr) × PyStr)
  | 0, _ => none
  | n + 1, s =>
      if s.head?.any isWs then
        match name (skipWs s) with
        | none => some ([], s)
        | some (key, s) => do
            let s ← after (py "=") (skipWs s)
            let (value, s) ← quoted (skipWs s)
            let (rest, s) ← attributes n s
            some ((key, value) :: rest, s)
      else some ([], s)

mutual

def element : Nat → PyStr → Option (Element × PyStr)
  | 0, _ => none
  | n + 1, s => do
      let s ← after (py "<") s
      let (tag, s) ← name s
      let (attributes, s) ← attributes s.length.succ s
      if (attributes.map Prod.fst).Nodup then
        match after (py "/>") (skipWs s) with
        | some s => some (.element tag attributes [] [], s)
        | none => do
            let s ← after (py ">") (skipWs s)
            let (text, s) ← characters s
            let (children, s) ← content n s
            let s ← after (py "</" ++ tag) s
            let s ← after (py ">") (skipWs s)
            some (.element tag attributes text children, s)
      else none

/-- The children with their tails, up to the end tag. -/
def content : Nat → PyStr → Option (List (Element × PyStr) × PyStr)
  | 0, _ => none
  | n + 1, s =>
      if (py "</").isPrefixOf s then some ([], s)
      else do
        let (child, s) ← element n s
        let (tail, s) ← characters s
        let (rest, s) ← content n s
        some ((child, tail) :: rest, s)

end

/-- `XMLDecl`, which may be missing. -/
def declaration (s : PyStr) : Option PyStr :=
  match after (py "<?xml") s with
  | none => some s
  | some s => do
      let (pairs, s) ← attributes s.length.succ s
      let s ← after (py "?>") (skipWs s)
      if pairs.head? = some (py "version", py "1.0") ∧
          (pairs.map Prod.fst).isSublist [py "version", py "encoding", py "standalone"] then some s
      else none

/-- The root of a well-formed document. -/
def parse (s : PyStr) : Option Element :=
  if s.all isXmlChar then do
    let s ← declaration (normalizeLines false s)
    let (root, s) ← element s.length (skipWs s)
    if s.all isWs then some root else none
  else none

end Xml
